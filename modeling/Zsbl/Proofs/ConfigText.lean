/-
Module: Zsbl.Proofs.ConfigText
Purpose: What conf.ini does on the sg2042 and the sg2044, with the parser of lib/ini/ini.c.
Trusted boundary: the boot devices, which are parameters
Main exports:
  strstr_first, confText, confCalls, lastValue, config_file_round_trip,
  sg2044_config_round_trip
-/
import Zsbl.Plat.Sg2044
import Zsbl.Proofs.ConfigFile
import Zsbl.Proofs.IniText

namespace Zsbl.Plat

open Zsbl.Lib Zsbl.Libs Sg2044

/-! ## Where the text ends -/

/-- A text is found where it first begins. -/
theorem strstrFrom_first {ne front rest : List UInt8} (nonempty : ne ≠ [])
    (isString : 0 ∉ front) (isString' : 0 ∉ ne)
    (first : ∀ i < front.length, ¬ ne <+: (front ++ (ne ++ rest)).drop i) :
    strstrFrom ne (front ++ (ne ++ rest)) = some (some front.length) := by
  induction front with
  | nil =>
      obtain ⟨n, ne, rfl⟩ := List.exists_cons_of_ne_nil nonempty
      rcases startsWith_cases (n :: ne) (n :: ne ++ rest) with
        ⟨hit, -⟩ | ⟨-, notHere, -⟩ | ⟨-, notHere, -⟩
      · have nonzero : n ≠ 0 := fun zero => isString' (by simp [zero])
        rw [List.cons_append] at hit
        simp [strstrFrom, nonzero, hit]
      · exact absurd (List.prefix_append _ _) notHere
      · exact absurd (List.prefix_append _ _) notHere
  | cons h front ih =>
      rw [List.mem_cons, not_or] at isString
      have notHere := first 0 (Nat.zero_lt_succ _)
      have later := ih isString.2 fun i below => first (i + 1) (Nat.succ_lt_succ below)
      rw [List.drop_zero, List.cons_append] at notHere
      rw [List.cons_append, strstrFrom, if_neg (Ne.symm isString.1), later]
      rcases startsWith_cases ne (h :: (front ++ (ne ++ rest))) with
        ⟨-, here⟩ | ⟨miss, -, -⟩ | ⟨-, -, short⟩
      · exact absurd here notHere
      · simp [miss]
      · have shorter := short.length_le
        simp at shorter
        omega

/-- A text that ends with an element that `ne` does not have is searched up to its end. -/
theorem strstr_first {ne front rest : List UInt8} {stop : UInt8} (nonempty : ne ≠ [])
    (isString : 0 ∉ front) (isString' : 0 ∉ ne) (last : front.getLast? = some stop)
    (foreign : stop ∉ ne) (missing : ¬ ne <:+: front) :
    strstr (front ++ (ne ++ rest)) ne = some (some front.length) := by
  rw [strstr, if_neg nonempty]
  refine strstrFrom_first nonempty isString isString' fun i below here => ?_
  rw [List.drop_append_of_le_length (Nat.le_of_lt below)] at here
  rcases Nat.le_total ne.length (front.drop i).length with fits | longer
  · have inside := List.prefix_of_prefix_length_le here (List.prefix_append _ _) fits
    exact missing (inside.isInfix.trans (List.drop_suffix i front).isInfix)
  · have inside := List.prefix_of_prefix_length_le (List.prefix_append _ _) here longer
    apply foreign
    apply inside.mem
    have ends := List.getLast?_drop (l := front) (i := i)
    rw [if_neg (by omega), last] at ends
    exact List.mem_of_getLast? ends

/-! ## The text of a file -/

/-- "sophgo-config", the name between the brackets of the header. -/
def confSection : IniSection where
  chars := (confHeader.drop 1).dropLast
  isLine := by simp [isLine, confHeader, isNewline]
  plain := by simp [NoComment, confHeader, INI_INLINE_COMMENT_PREFIXES]
  noClose := by simp [confHeader]

/-- The items behind the header, a line each. -/
def confText (items : List IniItem) : List UInt8 := iniText (.header confSection :: items)

/-- What the items say. -/
def confCalls (items : List IniItem) : List IniCall := iniTextCalls confSection.chars items

/-- The lines fit into the buffer of the parser, and none has the tail. -/
structure ConfFits (items : List IniItem) : Prop where
  lines : ∀ line ∈ items.flatMap IniItem.lines, line.length ≤ INI_MAX_LINE - 1
  noTail : ¬ confTail <:+: confText items
  short : (confText items).length + confTail.length < 2 ^ 31

variable {items : List IniItem}

theorem confText_eq (items : List IniItem) :
    confText items = confHeader ++ 0x0a :: iniText items := by
  simp [confText, iniText, IniItem.lines, confSection, confHeader]

/-- A configuration file ends with a line. -/
theorem confText_last (items : List IniItem) : (confText items).getLast? = some 0x0a := by
  have ends (lines : List (List UInt8)) (line : List UInt8) :
      ((line :: lines).flatMap fun line => line ++ [0x0a]).getLast? = some 0x0a := by
    induction lines generalizing line with
    | nil => simp
    | cons next lines ih =>
        rw [List.flatMap_cons, List.getLast?_append, ih next]
        rfl
  exact ends _ _

theorem confText_isString (items : List IniItem) : 0 ∉ confText items :=
  iniText_isString (.header confSection :: items)

theorem ConfFits.all (fits : ConfFits items) :
    ∀ line ∈ (IniItem.header confSection :: items).flatMap IniItem.lines,
      line.length ≤ INI_MAX_LINE - 1 := by
  rw [List.flatMap_cons, List.forall_mem_append]
  exact ⟨by simp [IniItem.lines, confSection, confHeader, INI_MAX_LINE], fits.lines⟩

theorem ConfFits.scan (fits : ConfFits items) (rest : List UInt8) :
    confScan (confText items ++ (confTail ++ rest)) = some (.ok (confText items).length) := by
  have header : confHeader <+: confText items ++ (confTail ++ rest) := by
    rw [confText_eq, List.append_assoc]
    exact List.prefix_append _ _
  rw [confScan_header header, strstr_first (by decide) (confText_isString items) (by decide)
    (confText_last items) (by decide) fits.noTail]
  rfl

/-- The calls for the text, up to the tail or with it. -/
theorem ConfFits.calls (fits : ConfFits items) :
    iniCalls (confText items) = confCalls items ∧
      iniCalls (confText items ++ confTail) = confCalls items := by
  refine ⟨congrArg Prod.fst (iniParseString_text _ fits.all), ?_⟩
  obtain ⟨_, st, reads, parsed⟩ := iniParseStream_items _ fits.all iniReads_start confTail
  have isString : 0 ∉ confText items ++ confTail := by
    rw [List.mem_append, not_or]
    exact ⟨confText_isString items, by decide⟩
  have tail : cutLine isNewline (INI_MAX_LINE - 1) confTail = (confTail, []) := by decide
  have read : iniReaderString INI_MAX_LINE confTail = some (confTail, []) :=
    (iniReaderString_eq (by decide)).trans (congrArg some tail)
  let eof : IniSection :=
    { chars := (confTail.drop 1).dropLast
      isLine := by simp [isLine, confTail, isNewline]
      plain := by simp [NoComment, confTail, INI_INLINE_COMMENT_PREFIXES]
      noClose := by simp [confTail] }
  have ends := reads.header (List.forall_mem_nil _ : ∀ c ∈ ([] : List UInt8), isspace c = true) eof
  unfold iniCalls iniParseString
  rw [cstr_of_notMem isString]
  change (iniParseStream recordCall _ (iniText _ ++ confTail)).user = _
  rw [parsed, iniParseStream_some recordCall read, iniParseStream_none recordCall rfl]
  exact ends.user

/-- The result of the parser never makes the call fail. -/
theorem confParse_eq {σ : Type} (handler : IniHandler σ) (cfg : σ) (string : List UInt8)
    (short : string.length < 2 ^ 31) :
    confParse (iniParseString handler) cfg string =
      ((iniCalls string).foldl (IniCall.after handler) cfg, 0) := by
  have positive := iniParseString_nonneg handler string short cfg
  unfold confParse
  simp only [if_neg (not_lt.mpr positive), iniParseString_user]

/-- On both platforms the lines in front of the tail are parsed, and nothing else. -/
theorem parseConfigFile_text {σ : Type} (handler : IniHandler σ) (devices : List ConfDevice)
    (cfg : σ) (items : List IniItem) (rest : List UInt8) (found : 0 < confFileSize devices)
    (loaded : confLoad devices = some (confText items ++ (confTail ++ rest)))
    (fits : ConfFits items) :
    parseConfigFile2042 (iniParseString handler) devices true cfg =
        some ((confCalls items).foldl (IniCall.after handler) cfg, 0) ∧
      parseConfigFile2044 (iniParseString handler) devices cfg =
        some ((confCalls items).foldl (IniCall.after handler) cfg, 0) := by
  have short := fits.short
  have scanned := fits.scan rest
  have withTail : (confText items ++ (confTail ++ rest)).take
      ((confText items).length + confTail.length) = confText items ++ confTail := by
    rw [← List.append_assoc, List.take_left' List.length_append]
  have isString : 0 ∉ confText items ++ confTail := by
    rw [List.mem_append, not_or]
    exact ⟨confText_isString items, by decide⟩
  constructor
  · have parsed := confParse_eq handler cfg (confText items) (by omega)
    rw [fits.calls.1] at parsed
    rw [parseConfigFile2042, if_neg (not_le.mpr found)]
    simp only [loaded, Option.getD_some, scanned, confOutcome, List.take_left,
      cstr_of_notMem (confText_isString items), parsed, Bool.not_true, Bool.false_eq_true, if_false]
  · have parsed := confParse_eq handler cfg (confText items ++ confTail)
      (by rwa [List.length_append])
    rw [fits.calls.2] at parsed
    rw [parseConfigFile2044, if_neg (not_le.mpr found)]
    simp only [loaded, Option.getD_some, scanned, confOutcome, withTail,
      cstr_of_notMem isString, parsed]

/-- A file that is written for it sets the configuration as its entries say, and what follows
the tail does nothing. -/
theorem config_file_round_trip {σ : Type} (handler : IniHandler σ) (devices : List ConfDevice)
    (cfg : σ) (items : List IniItem) (rest : List UInt8) (found : 0 < confFileSize devices)
    (loaded : confLoad devices = some (confText items ++ (confTail ++ rest)))
    (fits : ConfFits items) :
    parseConfigFile2042 (iniParseString handler) devices true cfg =
        some ((confCalls items).foldl (IniCall.after handler) cfg, 0) ∧
      parseConfigFile2044 (iniParseString handler) devices cfg =
        some ((confCalls items).foldl (IniCall.after handler) cfg, 0) :=
  parseConfigFile_text handler devices cfg items rest found loaded fits

/-! ### A file that sets a kernel -/

def kernelWord : IniWord := ⟨ascii "kernel", by decide +kernel, by decide +kernel⟩

def nameWord : IniWord := ⟨ascii "name", by decide +kernel, by decide +kernel⟩

def imageWord : IniWord := ⟨ascii "Image", by decide +kernel, by decide +kernel⟩

def addrWord : IniWord := ⟨ascii "addr", by decide +kernel, by decide +kernel⟩

def addressWord : IniWord := ⟨ascii "80400000", by decide +kernel, by decide +kernel⟩

def bootWord : IniWord := ⟨ascii "boot", by decide +kernel, by decide +kernel⟩

def cmdlineWord : IniWord := ⟨ascii "cmdline", by decide +kernel, by decide +kernel⟩

def quietWord : IniWord := ⟨ascii "quiet", by decide +kernel, by decide +kernel⟩

def entryOf (name value : IniWord) : IniItem :=
  .entry name.toIniName value.toIniName.toIniValue []

/-- [kernel] with a name and an address, and [boot] with a command line. -/
def kernelItems : List IniItem :=
  [.header kernelWord.toIniSection, entryOf nameWord imageWord, entryOf addrWord addressWord,
    .header bootWord.toIniSection, entryOf cmdlineWord quietWord]

theorem kernelItems_fit : ConfFits kernelItems where
  lines := by decide +kernel
  noTail := by decide +kernel
  short := by decide +kernel

def kernelFile : List UInt8 := confText kernelItems ++ (confTail ++ ascii "name=x")

def kernelConf : ConfDevice := ⟨false, kernelFile.length, some kernelFile⟩

theorem kernelConf_found : 0 < confFileSize [kernelConf] := by decide +kernel

theorem kernelConf_loaded : confLoad [kernelConf] = some kernelFile := rfl

/-- The entries of the file in their order, and none from behind the tail. -/
theorem config_file_round_trip_kernel :
    parseConfigFile2042 (iniParseString recordCall) [kernelConf] true [] =
      some ([⟨ascii "kernel", ascii "name", ascii "Image"⟩,
        ⟨ascii "kernel", ascii "addr", ascii "80400000"⟩,
        ⟨ascii "boot", ascii "cmdline", ascii "quiet"⟩], 0) := by
  have parsed := (config_file_round_trip recordCall [kernelConf] [] kernelItems (ascii "name=x")
    kernelConf_found kernelConf_loaded kernelItems_fit).1
  rw [parsed]
  decide +kernel

/-! ## The configuration of the sg2044 -/

/-- The value that was said last. -/
def lastValue (calls : List IniCall) (sectionName name : List UInt8) : Option (List UInt8) :=
  (calls.filter fun call => call.sectionName = sectionName ∧ call.name = name).getLast?.map
    IniCall.value

/-- The last value of a key is that of the later calls, if they have one. -/
theorem lastValue_cons (call : IniCall) (calls : List IniCall) (sectionName name : List UInt8) :
    lastValue (call :: calls) sectionName name =
      (lastValue calls sectionName name).or
        (if call.sectionName = sectionName ∧ call.name = name then some call.value else none) := by
  unfold lastValue
  rw [List.filter_cons]
  split
  case isTrue said =>
    rw [if_pos (of_decide_eq_true said), List.getLast?_cons]
    cases (calls.filter fun call => call.sectionName = sectionName ∧ call.name = name).getLast? <;>
      rfl
  case isFalse other =>
    rw [if_neg (by simpa using other), Option.or_none]

/-- The calls have set the configuration, each name and address as it was said last. -/
structure Said (strtoul : List UInt8 → Nat) (calls : List IniCall) (cfg cfg' : Config) :
    Prop where
  name : ∀ image : Image, (cfg'.file image).name =
    (lastValue calls image.sectionName (ascii "name")).or (cfg.file image).name
  addr : ∀ image : Image, (cfg'.file image).addr =
    (lastValue calls image.sectionName (ascii "addr")).elim (cfg.file image).addr strtoul
  bootargs : cfg'.bootargs = (lastValue calls (ascii "boot") (ascii "cmdline")).or cfg.bootargs
  size : ∀ image : Image, (cfg'.file image).size = (cfg.file image).size
  rest : cfg' = { cfg with file := cfg'.file, bootargs := cfg'.bootargs }

namespace Said

variable {strtoul : List UInt8 → Nat} {calls : List IniCall} {cfg cfg' cfg'' : Config}

theorem nil (cfg : Config) : Said strtoul [] cfg cfg :=
  ⟨fun _ => rfl, fun _ => rfl, rfl, fun _ => rfl, rfl⟩

/-- What a sequence of calls says is what the first says and then the others. -/
theorem cons {call : IniCall} (first : Said strtoul [call] cfg cfg')
    (later : Said strtoul calls cfg' cfg'') : Said strtoul (call :: calls) cfg cfg'' where
  name image := by
    rw [later.name, first.name, ← Option.or_assoc, lastValue_cons call calls,
      lastValue_cons call []]
    rfl
  addr image := by
    rw [later.addr, first.addr, lastValue_cons call calls, lastValue_cons call []]
    cases lastValue calls image.sectionName (ascii "addr") <;> rfl
  bootargs := by
    rw [later.bootargs, first.bootargs, ← Option.or_assoc, lastValue_cons call calls,
      lastValue_cons call []]
    rfl
  size image := by rw [later.size, first.size]
  rest := by
    rw [later.rest, first.rest]

end Said

theorem lastValue_singleton (call : IniCall) (sectionName name : List UInt8) :
    lastValue [call] sectionName name =
      if call.sectionName = sectionName ∧ call.name = name then some call.value else none :=
  lastValue_cons call [] sectionName name

theorem sectionName_inj (image other : Image) :
    image.sectionName = other.sectionName ↔ image = other := by
  cases image <;> cases other <;> decide +kernel

theorem sectionName_ne_boot (image : Image) : image.sectionName ≠ ascii "boot" := by
  cases image <;> decide +kernel

/-- A call for an image sets the fields of its file and no other. -/
theorem said_setFile (strtoul : List UInt8 → Nat) (cfg : Config) {call : IniCall} {image : Image}
    (here : call.sectionName = image.sectionName) (file : BootFile)
    (name : file.name =
      if call.name = ascii "name" then some call.value else (cfg.file image).name)
    (addr : file.addr =
      if call.name = ascii "addr" then strtoul call.value else (cfg.file image).addr)
    (size : file.size = (cfg.file image).size) :
    Said strtoul [call] cfg (cfg.setFile image file) := by
  have files (other : Image) : (cfg.setFile image file).file other =
      if image = other then file else cfg.file other := by
    unfold Config.setFile Function.update
    simp [eq_comm]
  constructor
  case name =>
    intro other
    simp only [lastValue_singleton, here, sectionName_inj, files]
    by_cases same : image = other
    · subst same
      by_cases said : call.name = ascii "name" <;> simp [said, name]
    · simp [same]
  case addr =>
    intro other
    simp only [lastValue_singleton, here, sectionName_inj, files]
    by_cases same : image = other
    · subst same
      by_cases said : call.name = ascii "addr" <;> simp [said, addr]
    · simp [same]
  case bootargs =>
    simp [lastValue_singleton, here, sectionName_ne_boot, Config.setFile]
  case size =>
    intro other
    rw [files]
    split
    case isTrue same => exact same ▸ size
    case isFalse => rfl
  case rest => rfl

/-- A call for no image leaves the files alone. -/
theorem said_other (strtoul : List UInt8 → Nat) (cfg : Config) {call : IniCall}
    (other : ∀ image : Image, call.sectionName ≠ image.sectionName)
    {bootargs : Option (List UInt8)}
    (said : bootargs = if call.sectionName = ascii "boot" ∧ call.name = ascii "cmdline" then
      some call.value else cfg.bootargs) :
    Said strtoul [call] cfg { cfg with bootargs := bootargs } := by
  constructor
  case bootargs =>
    rw [lastValue_singleton, said]
    split <;> simp
  all_goals simp [lastValue_singleton, other]

/-- One call of the handler sets what its key says. -/
theorem said_handlerImg (strtoul : List UInt8 → Nat) (cfg : Config) (call : IniCall) :
    Said strtoul [call] cfg (IniCall.after (handlerImg strtoul) cfg call) := by
  have names : ascii "addr" ≠ ascii "name" := by decide +kernel
  unfold IniCall.after handlerImg
  cases found : Image.all.find? fun image => image.sectionName = call.sectionName with
  | some image =>
      have here : call.sectionName = image.sectionName := by
        have same : image.sectionName = call.sectionName := by simpa using List.find?_some found
        exact same.symm
      dsimp only
      split
      case isTrue isName =>
        exact said_setFile strtoul cfg here _ (by simp [isName]) (by simp [isName, names.symm]) rfl
      case isFalse notName =>
        split
        case isTrue isAddr =>
          exact said_setFile strtoul cfg here _ (by simp [isAddr, names]) (by simp [isAddr]) rfl
        case isFalse notAddr =>
          have kept : cfg.setFile image (cfg.file image) = cfg := by
            unfold Config.setFile
            rw [Function.update_eq_self]
          have said := said_setFile strtoul cfg here (cfg.file image) (by simp [notName])
            (by simp [notAddr]) rfl
          rwa [kept] at said
  | none =>
      have other (image : Image) : call.sectionName ≠ image.sectionName := by
        intro same
        have missing := List.find?_eq_none.mp found image (by cases image <;> decide)
        simp [same] at missing
      dsimp only
      split
      case isTrue isBoot => exact said_other strtoul cfg other (by simp [isBoot])
      case isFalse notBoot =>
        exact said_other strtoul cfg other (by rw [if_neg notBoot])

theorem said_calls (strtoul : List UInt8 → Nat) (calls : List IniCall) (cfg : Config) :
    Said strtoul calls cfg (calls.foldl (IniCall.after (handlerImg strtoul)) cfg) := by
  induction calls generalizing cfg with
  | nil => exact Said.nil cfg
  | cons call calls ih => exact (said_handlerImg strtoul cfg call).cons (ih _)

/-- On the sg2044 a file that is written for it sets the names and the addresses of the images
and the arguments of the kernel as it says them last, and nothing else. -/
theorem sg2044_config_round_trip (strtoul : List UInt8 → Nat) (devices : List ConfDevice)
    (cfg : Config) (items : List IniItem) (rest : List UInt8) (found : 0 < confFileSize devices)
    (loaded : confLoad devices = some (confText items ++ (confTail ++ rest)))
    (fits : ConfFits items) :
    ∃ cfg', parseConfigFile2044 (iniParseString (handlerImg strtoul)) devices cfg =
        some (cfg', 0) ∧ Said strtoul (confCalls items) cfg cfg' :=
  ⟨_, (parseConfigFile_text (handlerImg strtoul) devices cfg items rest found loaded fits).2,
    said_calls strtoul (confCalls items) cfg⟩

/-- `strtoul(value, NULL, 16)`. -/
def strtoulHex (value : List UInt8) : Nat :=
  (strtoul (value ++ [0]) 16).elim 0 fun result => result.1.toNat

/-- The kernel gets the name and the address of the file, and the firmware keeps its own. -/
theorem sg2044_config_round_trip_kernel :
    ∃ cfg', parseConfigFile2044 (iniParseString (handlerImg strtoulHex)) [kernelConf]
        { Config.static with file := defaultFile 0x80000000 } = some (cfg', 0) ∧
      cfg'.file .kernel = ⟨some (ascii "Image"), 0x80400000, 0⟩ ∧
      cfg'.bootargs = some (ascii "quiet") ∧
      cfg'.file .sbi = ⟨some (ascii "fw_dynamic.bin"), 0x80000000, 0⟩ := by
  obtain ⟨cfg', parsed, said⟩ := sg2044_config_round_trip strtoulHex [kernelConf]
    { Config.static with file := defaultFile 0x80000000 } kernelItems (ascii "name=x")
    kernelConf_found kernelConf_loaded kernelItems_fit
  have file (image : Image) : cfg'.file image =
      ⟨(cfg'.file image).name, (cfg'.file image).addr, (cfg'.file image).size⟩ := rfl
  refine ⟨cfg', parsed, ?_, ?_, ?_⟩
  · rw [file, said.name, said.addr, said.size]
    decide +kernel
  · rw [said.bootargs]
    decide +kernel
  · rw [file, said.name, said.addr, said.size]
    decide +kernel

end Zsbl.Plat
