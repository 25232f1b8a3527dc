/-
Module: Zsbl.Proofs.Mac
Purpose: A MAC address survives its text, in a buffer that has room for it.
Trusted boundary: none
Main exports:
  MacForm, MacForm.str2mac_eq, RoundTrip, mac_round_trip, show_config_overruns
-/
import Zsbl.Plat.Mac
import Zsbl.Proofs.Stdio

namespace Zsbl.Plat.Sg2042

open Zsbl.Lib Zsbl.Libs Sg2044

variable (strings : BitVec 64 → Text)

/-! ## Printing -/

/-- "%02llx". -/
def hexPair (byte : BitVec 64) : Directive :=
  .number ⟨false, true, false, 2⟩ byte 16 false 0x61

def macDirectives (mac : BitVec 64) : List Directive :=
  [hexPair (macArgs mac 0), .literal 0x3a, hexPair (macArgs mac 1), .literal 0x3a,
    hexPair (macArgs mac 2), .literal 0x3a, hexPair (macArgs mac 3), .literal 0x3a,
    hexPair (macArgs mac 4), .literal 0x3a, hexPair (macArgs mac 5)]

theorem directives_macFormat (mac : BitVec 64) :
    directives strings (macArgs mac) 0 0 macFormat.chars = some (macDirectives mac) := rfl

/-- Two digits. -/
def twoDigits (byte : UInt8) : List UInt8 :=
  [printiDigit 0x61 (byte.toNat / 16), printiDigit 0x61 (byte.toNat % 16)]

theorem hexPair_chars : ∀ byte : BitVec 8,
    (hexPair (byte.setWidth 64)).chars = twoDigits ⟨byte⟩ ∧
      (twoDigits ⟨byte⟩).all isxdigit = true ∧
      hexValue (twoDigits ⟨byte⟩) = byte.toNat := by
  decide +kernel

/-- The bytes of an address, the high ones first. -/
def macByte (mac : BitVec 64) (i : Nat) : BitVec 8 := (mac >>> (40 - 8 * i)).setWidth 8

theorem low_byte (x : BitVec 64) : x &&& 0xff#64 = (x.setWidth 8).setWidth 64 := by
  apply BitVec.eq_of_toNat_eq
  have low := Nat.and_two_pow_sub_one_eq_mod x.toNat 8
  have small := x.isLt
  simp only [BitVec.toNat_and, BitVec.toNat_setWidth, BitVec.toNat_ofNat]
  rw [show 255 % 2 ^ 64 = 2 ^ 8 - 1 by decide, low]
  omega

theorem macArgs_eq (mac : BitVec 64) (i : Nat) :
    macArgs mac i = (macByte mac i).setWidth 64 := low_byte _

theorem mac2byte_eq (mac : BitVec 64) :
    mac2byte mac = (List.range 6).map fun i => ⟨macByte mac i⟩ := by
  have byte (x : BitVec 64) : UInt8.ofNat (x &&& 0xff#64).toNat = ⟨x.setWidth 8⟩ := by
    apply UInt8.toNat_inj.mp
    rw [low_byte, UInt8.toNat_ofNat']
    simp
  simp only [mac2byte, List.map_cons, List.map_nil, byte]
  rfl

/-- Bytes in the form that `mac2str` prints. -/
def colonText (bytes : List UInt8) : List UInt8 :=
  [0x3a].intercalate (bytes.map twoDigits)

/-- The format of `mac2str` prints six bytes with colons between them. -/
theorem macDirectives_chars (mac : BitVec 64) :
    allChars (macDirectives mac) = colonText (mac2byte mac) := by
  have pair (i : Nat) : (hexPair (macArgs mac i)).chars = twoDigits ⟨macByte mac i⟩ := by
    rw [macArgs_eq]
    exact (hexPair_chars _).1
  have colon : (Directive.literal 0x3a).chars = [0x3a] := rfl
  rw [mac2byte_eq]
  simp only [allChars, macDirectives, List.flatMap_cons, List.flatMap_nil, pair, colon]
  rfl

theorem length_macText (mac : BitVec 64) : (colonText (mac2byte mac)).length = 17 := rfl

/-- `mac2str` writes 17 characters and a terminator. -/
theorem mac2str_eq (mac : BitVec 64) {block : List UInt8} (room : 18 ≤ block.length) :
    mac2str strings mac block =
      some (colonText (mac2byte mac) ++ 0 :: block.drop 18) := by
  have chars := macDirectives_chars mac
  have fits : (allChars (macDirectives mac)).length < block.length := by
    rw [chars, length_macText]
    exact room
  unfold mac2str
  rw [sprintf_eq (directives_macFormat strings mac) fits, Option.map_some, chars]
  have nonempty : colonText (mac2byte mac) ≠ [] := List.cons_ne_nil _ _
  simp [Out.filled, nonempty, overwrite, length_macText]

/-- A block of less than 18 bytes is written past its end. -/
theorem mac2str_overruns (mac : BitVec 64) {block : List UInt8} (short : block.length < 18) :
    mac2str strings mac block = none := by
  have chars := macDirectives_chars mac
  have nonempty : colonText (mac2byte mac) ≠ [] := List.cons_ne_nil _ _
  unfold mac2str sprintf
  rw [print_block, directives_macFormat, Option.bind_some, chars,
    foldlM_printc_overrun rfl nonempty]
  · rfl
  · simp only [length_macText]
    omega

/-! ## Reading -/

theorem isxdigit_eq_isHex : ∀ c : UInt8, isxdigit c = isHex c := by
  have all : ∀ c : BitVec 8, isxdigit ⟨c⟩ = isHex ⟨c⟩ := by decide +kernel
  exact fun c => all c.toBitVec

theorem ne_of_isHex {c d : UInt8} (isDigit : isHex c = true) (other : isHex d = false) :
    c ≠ d := by
  rintro rfl
  rw [isDigit] at other
  cases other

theorem strchr_third {first second c : UInt8} (first₀ : first ≠ 0) (first₁ : first ≠ c)
    (second₀ : second ≠ 0) (second₁ : second ≠ c) (nonzero : c ≠ 0) (s : List UInt8) :
    strchr c (first :: second :: c :: s) = some (some 2) := by
  simp [strchr, first₀, first₁, second₀, second₁, nonzero]

theorem hexValue_pair_lt {hi lo : UInt8} (isHi : isHex hi = true) (isLo : isHex lo = true) :
    hexValue [hi, lo] < 256 := by
  obtain ⟨high, few, isHigh⟩ := isHex_iff.mp isHi
  obtain ⟨low, few', isLow⟩ := isHex_iff.mp isLo
  simp only [hexValue, List.foldl_cons, List.foldl_nil, isHigh, isLow, Option.getD_some]
  omega

/-- Two digits in front of something else. -/
theorem strtoul_pair {hi lo c : UInt8} (isHi : isHex hi = true) (isLo : isHex lo = true)
    (stop : isHex c = false) (s : List UInt8) :
    strtoul (hi :: lo :: c :: s) 16 = some (BitVec.ofNat 64 (hexValue [hi, lo]), 2) := by
  have noSign : strtoulSign (hi :: lo :: c :: s) = (0, false) := by
    unfold strtoulSign
    simp [ne_of_isHex isHi (show isHex 0x2d = false by decide),
      ne_of_isHex isHi (show isHex 0x2b = false by decide)]
  have noPrefix : strtoulBase 16 (hi :: lo :: c :: s) = some (0, 16) := by
    unfold strtoulBase
    simp [ne_of_isHex isLo (show isHex 0x78 = false by decide),
      ne_of_isHex isLo (show isHex 0x58 = false by decide)]
  have bothHex : ∀ d ∈ [hi, lo], isHex d = true := by simp [isHi, isLo]
  obtain ⟨acc, any, read, zero, known⟩ :=
    strtoulFrom_digits bothHex stop s 0
      (show Accumulated 0 0 0 from .inr ⟨le_refl _, rfl, by decide⟩)
  have value : hexValue [hi, lo] < 2 ^ 64 := hexValue_pair_lt isHi isLo |>.trans (by decide)
  obtain ⟨saturated, large⟩ | ⟨notNegative, isValue, -⟩ := known
  · exact absurd value (Nat.not_lt.mpr large)
  · have digits : any ≠ 0 := fun none => absurd (zero.mp none).2 (by simp)
    have positive : ¬ any < 0 := Int.not_lt.mpr notNegative
    have read' : strtoulFrom 16 (hi :: lo :: c :: s) 0 0 0 = some (acc, any, 2) := read
    unfold strtoul
    simp [noSign, noPrefix, read', digits, positive, isValue, hexValue]

/-- The byte that two digits stand for. -/
def pairByte (pair : UInt8 × UInt8) : UInt8 :=
  UInt8.ofNat (BitVec.ofNat 64 (hexValue [pair.1, pair.2])).toNat

theorem pairByte_toNat {pair : UInt8 × UInt8} (isHi : isHex pair.1 = true)
    (isLo : isHex pair.2 = true) : (pairByte pair).toNat = hexValue [pair.1, pair.2] := by
  have small := hexValue_pair_lt isHi isLo
  rw [pairByte, UInt8.toNat_ofNat', BitVec.toNat_ofNat]
  omega

/-- Twelve digits are six bytes. -/
theorem hexValue_pairs (pairs : List (UInt8 × UInt8))
    (hex : ∀ pair ∈ pairs, isHex pair.1 = true ∧ isHex pair.2 = true) :
    hexValue (pairs.flatMap fun pair => [pair.1, pair.2]) = le (pairs.map pairByte).reverse := by
  induction pairs using List.reverseRecOn with
  | nil => rfl
  | append_singleton pairs pair ih =>
      have front := ih fun other member => hex other (List.mem_append_left _ member)
      obtain ⟨isHi, isLo⟩ := hex pair (List.mem_append_right _ (List.mem_singleton_self pair))
      have byte := pairByte_toNat isHi isLo
      have behind : hexValue ((pairs.flatMap fun pair => [pair.1, pair.2]) ++ [pair.1, pair.2]) =
          hexValue (pairs.flatMap fun pair => [pair.1, pair.2]) * 256 +
            hexValue [pair.1, pair.2] := by
        have split (digits : List UInt8) :
            digits ++ [pair.1, pair.2] = digits ++ [pair.1] ++ [pair.2] := by simp
        have alone : hexValue [pair.1, pair.2] =
            (digitValue pair.1).getD 0 * 16 + (digitValue pair.2).getD 0 := by simp [hexValue]
        rw [split, hexValue_concat, hexValue_concat, alone]
        omega
      simp only [List.flatMap_append, List.flatMap_cons, List.flatMap_nil, List.append_nil,
        List.map_append, List.map_cons, List.map_nil, List.reverse_append, List.reverse_cons,
        List.reverse_nil, List.nil_append, List.cons_append, le]
      rw [behind, front, byte]
      omega

/-- What stands in a text of parts is a colon or stands in one of the parts. -/
theorem mem_colons {x : UInt8} {parts : List (List UInt8)}
    (member : x ∈ [0x3a].intercalate parts) : x = 0x3a ∨ ∃ part ∈ parts, x ∈ part := by
  induction parts with
  | nil => cases member
  | cons part parts ih =>
      by_cases last : parts = []
      · rw [last, List.intercalate_singleton] at member
        exact .inr ⟨part, List.mem_cons_self, member⟩
      · rw [List.intercalate_cons_of_ne_nil last, List.mem_append, List.mem_append] at member
        rcases member with (inPart | isColon) | inOther
        · exact .inr ⟨part, List.mem_cons_self, inPart⟩
        · exact .inl (List.mem_singleton.mp isColon)
        · rcases ih inOther with isColon | ⟨other, isPart, inPart⟩
          · exact .inl isColon
          · exact .inr ⟨other, List.mem_cons_of_mem _ isPart, inPart⟩

theorem exists_six {α : Type*} {list : List α} (six : list.length = 6) :
    ∃ a b c d e f, list = [a, b, c, d, e, f] := by
  rcases list with _ | ⟨a, _ | ⟨b, _ | ⟨c, _ | ⟨d, _ | ⟨e, _ | ⟨f, _ | ⟨g, rest⟩⟩⟩⟩⟩⟩⟩
  all_goals simp at six ⊢

/-- Six pairs of digits, in the form xx:xx:xx:xx:xx:xx. -/
structure MacForm where
  pairs : List (UInt8 × UInt8)
  six : pairs.length = 6
  hex : ∀ pair ∈ pairs, isxdigit pair.1 = true ∧ isxdigit pair.2 = true

namespace MacForm

def text (form : MacForm) : List UInt8 :=
  [0x3a].intercalate (form.pairs.map fun pair => [pair.1, pair.2])

/-- The number that the twelve digits spell. -/
def value (form : MacForm) : Nat := hexValue (form.pairs.flatMap fun pair => [pair.1, pair.2])

/-- The text of an address holds no terminator. -/
theorem zero_notMem_text (form : MacForm) : 0 ∉ form.text := by
  intro member
  rcases mem_colons member with isColon | ⟨part, isPart, inPart⟩
  · exact absurd isColon (by decide)
  · obtain ⟨pair, isPair, rfl⟩ := List.mem_map.mp isPart
    obtain ⟨isHi, isLo⟩ := form.hex pair isPair
    have nul : isxdigit 0 = false := by decide
    rcases List.mem_pair.mp inPart with zero | zero
    · rw [← zero, nul] at isHi
      cases isHi
    · rw [← zero, nul] at isLo
      cases isLo

/-- Every text of six parts is read as the number that it stands for. -/
theorem str2mac_eq (form : MacForm) (rest : List UInt8) :
    str2mac (some (form.text ++ 0 :: rest)) = some (BitVec.ofNat 64 form.value) := by
  obtain ⟨pairs, six, hex⟩ := form
  obtain ⟨a, b, c, d, e, f, rfl⟩ := exists_six six
  have isHex' : ∀ pair ∈ [a, b, c, d, e, f], isHex pair.1 = true ∧ isHex pair.2 = true := by
    simpa only [isxdigit_eq_isHex] using hex
  have isHexAll := isHex'
  simp only [List.forall_mem_cons, List.not_mem_nil, false_implies, implies_true,
    and_true] at isHex'
  obtain ⟨⟨a₁, a₂⟩, ⟨b₁, b₂⟩, ⟨c₁, c₂⟩, ⟨d₁, d₂⟩, ⟨e₁, e₂⟩, f₁, f₂⟩ := isHex'
  have colon : isHex 0x3a = false := by decide
  have nul : isHex 0 = false := by decide
  obtain ⟨s, isText⟩ : ∃ s, s = text ⟨[a, b, c, d, e, f], six, hex⟩ ++ 0 :: rest := ⟨_, rfl⟩
  have noNul := zero_notMem_text ⟨[a, b, c, d, e, f], six, hex⟩
  have found : strchr 0x3a s = some (some 2) := by
    rw [isText]
    exact strchr_third (ne_of_isHex a₁ nul) (ne_of_isHex a₁ colon) (ne_of_isHex a₂ nul)
      (ne_of_isHex a₂ colon) (by decide) _
  have start : skipToDigit s = some s := by
    rw [isText]
    exact if_pos (.inr (by rw [isxdigit_eq_isHex]; exact a₁))
  have length : strlen s = some 17 := by
    rw [isText]
    exact strlen_string noNul rest
  have read (position : Nat) (pair : UInt8 × UInt8) (isHi : isHex pair.1 = true)
      (isLo : isHex pair.2 = true) (stop : UInt8) (noHex : isHex stop = false)
      (more : List UInt8) (there : s.drop position = pair.1 :: pair.2 :: stop :: more) :
      ((strtoul (s.drop position) 16).map fun read => UInt8.ofNat read.1.toNat) =
        some (pairByte pair) := by
    rw [there, strtoul_pair isHi isLo noHex, Option.map_some]
    rfl
  have bytes : [0, 3, 6, 9, 12, 15].mapM (fun position =>
      (strtoul (s.drop position) 16).map fun read => UInt8.ofNat read.1.toNat) =
        some [pairByte a, pairByte b, pairByte c, pairByte d, pairByte e, pairByte f] := by
    have first := read 0 a a₁ a₂ _ colon _ (by rw [isText]; rfl)
    have second := read 3 b b₁ b₂ _ colon _ (by rw [isText]; rfl)
    have third := read 6 c c₁ c₂ _ colon _ (by rw [isText]; rfl)
    have fourth := read 9 d d₁ d₂ _ colon _ (by rw [isText]; rfl)
    have fifth := read 12 e e₁ e₂ _ colon _ (by rw [isText]; rfl)
    have sixth := read 15 f f₁ f₂ _ nul _ (by rw [isText]; rfl)
    simp only [List.mapM_cons, List.mapM_nil, first, second, third, fourth, fifth, sixth]
    rfl
  rw [← isText]
  unfold str2mac
  simp only [found, start, length, bytes, Option.bind_eq_bind, Option.bind_some]
  have same := hexValue_pairs _ isHexAll
  exact congrArg (fun number => some (BitVec.ofNat 64 number)) same.symm

end MacForm

/-! ## The properties -/

/-- `mac2str` writes inside the buffer; what it leaves there is the bytes of `mac2byte` in
their order, which `str2mac` reads back. -/
def RoundTrip (mac : BitVec 48) (block : List UInt8) : Prop :=
  ∃ block', mac2str strings (mac.setWidth 64) block = some block' ∧
    cstr block' = colonText (mac2byte (mac.setWidth 64)) ∧
    str2mac (some block') = some (mac.setWidth 64)

/-- The bytes come in the order of the network, the lowest last. -/
theorem mac2byte_reverse (mac : BitVec 64) : (mac2byte mac).reverse = leBytes 6 mac.toNat := by
  have byte (shift i : Nat) (isShift : shift = 8 * i) :
      (⟨(mac >>> shift).setWidth 8⟩ : UInt8) = UInt8.ofNat (mac.toNat / 256 ^ i) := by
    have power : 256 ^ i = 2 ^ shift := by rw [isShift, Nat.pow_mul]
    apply UInt8.toNat_inj.mp
    rw [UInt8.toNat_ofNat', power, ← Nat.shiftRight_eq_div_pow]
    simp
  have listed : (mac2byte mac).reverse = [0, 8, 16, 24, 32, 40].map fun shift =>
      ⟨(mac >>> shift).setWidth 8⟩ := by
    rw [mac2byte_eq]
    rfl
  simp only [listed, List.map_cons, List.map_nil, byte 0 0 rfl, byte 8 1 rfl, byte 16 2 rfl,
    byte 24 3 rfl, byte 32 4 rfl, byte 40 5 rfl, leBytes_eq_map]
  rfl

/-- The text of an address as one of the accepted forms. -/
def macForm (mac : BitVec 64) : MacForm where
  pairs := (mac2byte mac).map fun byte =>
    (printiDigit 0x61 (byte.toNat / 16), printiDigit 0x61 (byte.toNat % 16))
  six := rfl
  hex pair member := by
    obtain ⟨byte, -, rfl⟩ := List.mem_map.mp member
    have both := (hexPair_chars byte.toBitVec).2.1
    simpa [twoDigits] using both

theorem macForm_text (mac : BitVec 64) : (macForm mac).text = colonText (mac2byte mac) := by
  simp only [MacForm.text, macForm, colonText, List.map_map]
  rfl

/-- The text of an address of 48 bits stands for this address. -/
theorem macForm_value (mac : BitVec 48) :
    BitVec.ofNat 64 (macForm (mac.setWidth 64)).value = mac.setWidth 64 := by
  have byte (b : UInt8) :
      pairByte (printiDigit 0x61 (b.toNat / 16), printiDigit 0x61 (b.toNat % 16)) = b := by
    have all := hexPair_chars b.toBitVec
    have hex : isHex (printiDigit 0x61 (b.toNat / 16)) = true ∧
        isHex (printiDigit 0x61 (b.toNat % 16)) = true := by
      simpa [twoDigits, isxdigit_eq_isHex] using all.2.1
    apply UInt8.toNat_inj.mp
    rw [pairByte_toNat hex.1 hex.2]
    exact all.2.2
  have isHex' : ∀ pair ∈ (macForm (mac.setWidth 64)).pairs,
      isHex pair.1 = true ∧ isHex pair.2 = true := by
    simpa only [isxdigit_eq_isHex] using (macForm (mac.setWidth 64)).hex
  have bytes : (macForm (mac.setWidth 64)).pairs.map pairByte = mac2byte (mac.setWidth 64) := by
    simp only [macForm, List.map_map, Function.comp_def, byte, List.map_id']
  have fits : (mac.setWidth 64).toNat < 256 ^ 6 := by
    have small := mac.isLt
    rw [BitVec.toNat_setWidth]
    omega
  rw [MacForm.value, hexValue_pairs _ isHex', bytes, mac2byte_reverse, le_leBytes fits,
    BitVec.ofNat_toNat, BitVec.setWidth_eq]

/-- An address is printed and read back in a buffer that has room for 18 bytes, and in no
other; every text of the form has the value that it spells; `show_config`, whose buffer has
7 bytes, always writes behind it. -/
theorem mac_round_trip (mac : BitVec 48) (block : List UInt8) (form : MacForm)
    (rest : List UInt8) (cfg : BootConfig) (stack : Vector UInt8 7) :
    (RoundTrip strings mac block ↔ 18 ≤ block.length) ∧
      str2mac (some (form.text ++ 0 :: rest)) = some (BitVec.ofNat 64 form.value) ∧
      showConfigMac strings cfg stack = none := by
  refine ⟨⟨?_, ?_⟩, form.str2mac_eq rest, ?_⟩
  · rintro ⟨block', written, -⟩
    by_contra short
    rw [mac2str_overruns strings _ (Nat.not_le.mp short)] at written
    cases written
  · intro room
    have text := macForm_text (mac.setWidth 64)
    refine ⟨_, mac2str_eq strings _ room, ?_, ?_⟩
    · rw [← text]
      exact cstr_append_zero (macForm _).zero_notMem_text _
    · rw [← text, (macForm _).str2mac_eq, macForm_value]
  · unfold showConfigMac
    rw [mac2str_overruns strings _ (by rw [stack.length_toList]; decide)]
    rfl

/-- A board with one address. -/
def macConfig : BootConfig where
  board := ⟨false, []⟩
  dtb := ⟨none, 0, 0⟩
  dtbo := ⟨none, 0, 0⟩
  ramfs := ⟨none, 0, 0⟩
  mac0 := 0x001122334455
  mac1 := 0

/-- The first address that `show_config` prints does not fit into `char mac[7]`. -/
theorem show_config_overruns :
    showConfigMac noStrings macConfig (Vector.replicate 7 0) = none ∧
      ¬ RoundTrip noStrings 0x001122334455 (List.replicate 7 0) := by
  have first := mac2str_overruns noStrings 0x001122334455
    (show (List.replicate 7 (0 : UInt8)).length < 18 by decide)
  constructor
  · exact congrArg (fun mac => mac.bind (mac2str noStrings 0)) first
  · rintro ⟨block', written, -⟩
    rw [show (0x001122334455 : BitVec 48).setWidth 64 = 0x001122334455 by decide, first] at written
    cases written

end Zsbl.Plat.Sg2042
