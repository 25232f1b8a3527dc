/-
Module: Zsbl.Proofs.VfsMkdirPath
Purpose: When path lookup finds the directory that vfs_mkdir_p has made along the
  same path.
Trusted boundary: none
Main exports:
  empty_name_iff, segments_pathNames, DirWay, mkdirPFrom_way, mkdir_p_lookup
-/
import Mathlib.Data.List.Infix
import Zsbl.Proofs.VfsMountGraph
import Zsbl.Proofs.VfsResolve

namespace Zsbl.Common

open Zsbl.Lib

variable {ω π : Type} {s s' : Vfs ω π} {code : FsCode ω π}

/-! ## Two ways to split a path -/

/-- A name without slashes hides no doubled slash. -/
theorem slashes_behind {name rest : CStr} (absent : slash ∉ name) :
    [slash, slash] <:+: name ++ rest ↔ [slash, slash] <:+: rest := by
  induction name with
  | nil => rfl
  | cons first name ih =>
      rw [List.mem_cons, not_or] at absent
      rw [List.cons_append, List.infix_cons_iff, ih absent.2]
      constructor
      · rintro (starts | inside)
        · exact absurd (List.cons_prefix_cons.mp starts).1 absent.1
        · exact inside
      · exact Or.inr

theorem not_slashes_one : ¬ [slash, slash] <:+: [slash] := by
  intro inside
  exact absurd inside.length_le (by decide)

/-- A path has an empty name exactly where two slashes meet. -/
theorem empty_name_iff (cursor : CStr) :
    [] ∈ namesOf cursor ↔ [slash, slash] <:+: slash :: cursor := by
  induction size : cursor.length using Nat.strong_induction_on generalizing cursor with
  | _ size ih =>
      subst size
      by_cases more : cursor = []
      · subst more
        rw [namesOf_nil]
        exact iff_of_false List.not_mem_nil not_slashes_one
      · have absent : slash ∉ cursor.takeWhile (· ≠ slash) := by
          intro member
          simpa using List.mem_takeWhile_imp member
        have split := List.takeWhile_append_dropWhile (p := (· ≠ slash)) (l := cursor)
        have shorter : (cursor.dropWhile (· ≠ slash)).tail.length < cursor.length := by
          have le := (List.dropWhile_suffix (l := cursor) (· ≠ slash)).length_le
          have pos := List.length_pos_of_ne_nil more
          rw [List.length_tail]
          omega
        have isSlash (ne : cursor.dropWhile (· ≠ slash) ≠ []) :
            cursor.dropWhile (· ≠ slash) = slash :: (cursor.dropWhile (· ≠ slash)).tail := by
          have first := List.head_dropWhile_not (· ≠ slash) (l := cursor) ne
          simp only [decide_eq_false_iff_not, not_not] at first
          conv_lhs => rw [← List.cons_head_tail ne, first]
        rw [namesOf_cons more, List.mem_cons, ih _ shorter _ rfl]
        generalize cursor.takeWhile (· ≠ slash) = name at absent split
        generalize cursor.dropWhile (· ≠ slash) = behind at split isSlash
        subst split
        have rest : [slash, slash] <:+: behind ↔ [slash, slash] <:+: slash :: behind.tail := by
          by_cases none : behind = []
          · subst none
            exact iff_of_false (fun inside => absurd inside.length_le (by decide)) not_slashes_one
          · rw [← isSlash none]
        cases name with
        | nil =>
            refine iff_of_true (Or.inl rfl) ?_
            rw [List.nil_append, isSlash more]
            exact List.IsPrefix.isInfix ⟨behind.tail, rfl⟩
        | cons first name =>
            have notSlash : first ≠ slash := by
              rintro rfl
              exact absent List.mem_cons_self
            rw [← rest, List.infix_cons_iff, slashes_behind absent]
            constructor
            · rintro (empty | inside)
              · cases empty
              · exact Or.inr inside
            · rintro (starts | inside)
              · have second := (List.cons_prefix_cons.mp starts).2
                exact absurd (List.cons_prefix_cons.mp second).1.symm notSlash
              · exact Or.inr inside

theorem filter_dropTrailing (names : List CStr) :
    (dropTrailing names).filter (· ≠ []) = names.filter (· ≠ []) := by
  unfold dropTrailing
  split
  · next trailing =>
    conv_rhs => rw [← List.dropLast_append_getLast? [] trailing]
    simp
  · rfl

/-- Where no two slashes meet, both splits give the same names. -/
theorem segments_pathNames {path : CStr} (absolute : vfsIsPathValid path = true)
    (apart : ¬ [slash, slash] <:+: path) : segments path = pathNames path := by
  obtain ⟨cursor, rfl⟩ := absolute_cons absolute
  have named : [] ∉ namesOf cursor := fun empty => apart ((empty_name_iff cursor).mp empty)
  have same : (namesOf cursor).filter (· ≠ []) = namesOf cursor := by
    apply List.filter_eq_self.mpr
    intro name member
    apply decide_eq_true
    rintro rfl
    exact named member
  rw [segments_slash]
  unfold segments pathNames
  rw [List.tail_cons, ← same, namesOf, filter_dropTrailing]

/-! ## The way that is made -/

/-- Directories with these names, one in the other. -/
inductive DirWay (s : Vfs ω π) : Nat → List CStr → Nat → Prop where
  | here (cur : Nat) : DirWay s cur [] cur
  | step {cur next stop : Nat} {node : VfsNode ω π} {names : List CStr}
      (live : s.nodes next = some node) (parent : node.parent = some cur)
      (isDir : node.type = .dir) (rest : DirWay s next names stop) :
      DirWay s cur (node.name :: names) stop

/-- The loop of `vfs_mkdir_p` ends at the directory at the end of its way. -/
theorem mkdirPFrom_way {fuel cur id : Nat} {p : CStr} (inv : TreeInv s)
    (live : (s.nodes cur).isSome) (done : mkdirPFrom fuel s cur p = some (s', some id)) :
    DirWay s' cur (segments p) id := by
  induction fuel generalizing s cur p with
  | zero =>
      cases p with
      | nil =>
          obtain ⟨-, same⟩ := Prod.mk.inj (Option.some.inj done)
          obtain rfl := Option.some.inj same
          exact .here cur
      | cons _ _ => cases done
  | succ fuel ih =>
      cases p with
      | nil =>
          obtain ⟨-, same⟩ := Prod.mk.inj (Option.some.inj done)
          obtain rfl := Option.some.inj same
          exact .here cur
      | cons first p =>
          simp only [mkdirPFrom] at done
          split at done
          · next none =>
            obtain ⟨-, same⟩ := Prod.mk.inj (Option.some.inj done)
            obtain rfl := Option.some.inj same
            rw [← segments_skip, none]
            exact .here cur
          · next more =>
            rw [segments_cons more]
            have malloc : Builds s s.malloc.1 := .single (.malloc s)
            obtain ⟨inv₁, grown₁⟩ := malloc.tree inv
            split at done
            · cases (Prod.mk.inj (Option.some.inj done)).2
            · obtain ⟨found, search, done⟩ := Option.bind_eq_some_iff.mp done
              have live₁ : s.malloc.1.Live (some cur) := by
                intro id same
                obtain rfl := Option.some.inj same
                exact live
              cases found with
              | some next =>
                  obtain ⟨node, nextLive, done⟩ := Option.bind_eq_some_iff.mp done
                  split at done
                  · cases (Prod.mk.inj (Option.some.inj done)).2
                  · next isDir =>
                    have nextSome : (s.malloc.1.nodes next).isSome := by simp [nextLive]
                    rw [inv₁.vfsFindChildByName_eq (live₁ cur rfl)] at search
                    obtain ⟨other, otherLive, parent, name⟩ :=
                      childNamed_spec inv₁ (Option.some.inj search)
                    obtain rfl := Option.some.inj (nextLive.symm.trans otherLive)
                    obtain ⟨-, grown⟩ := (mkdirPFrom_builds inv₁ nextSome done).tree inv₁
                    obtain ⟨node', live', name', type', parent', -⟩ := grown.node next node nextLive
                    rw [← name, ← name']
                    exact .step live' (parent'.trans parent)
                      (type'.trans (Decidable.not_not.mp isDir)) (ih inv₁ nextSome done)
              | none =>
                  obtain ⟨⟨s₂, created⟩, made, done⟩ := Option.bind_eq_some_iff.mp done
                  cases created with
                  | none => cases (Prod.mk.inj (Option.some.inj done)).2
                  | some next =>
                      obtain ⟨inv₂, -⟩ := inv₁.vfsCreateNode_extends live₁ made
                      obtain ⟨node, nextLive, parent, name, type, -⟩ :=
                        inv₁.vfsCreateNode_created live₁ made
                      have nextSome : (s₂.nodes next).isSome := by simp [nextLive]
                      obtain ⟨-, grown⟩ := (mkdirPFrom_builds inv₂ nextSome done).tree inv₂
                      obtain ⟨node', live', name', type', parent', -⟩ :=
                        grown.node next node nextLive
                      rw [← name, ← name']
                      exact .step live' (parent'.trans parent) (type'.trans type)
                        (ih inv₂ nextSome done)

/-- Along a way that is there, `vfs_mkdir_p` changes nothing. -/
theorem mkdirPFrom_there (inv : TreeInv s) (roomy : s.Roomy) {fuel cur id : Nat} {p : CStr}
    (way : DirWay s cur (segments p) id) (enough : p.length ≤ fuel) :
    mkdirPFrom fuel s cur p = some (s, some id) := by
  induction fuel generalizing cur p with
  | zero =>
      obtain rfl := List.eq_nil_of_length_eq_zero (Nat.le_zero.mp enough)
      cases way
      rfl
  | succ fuel ih =>
      cases p with
      | nil =>
          cases way
          rfl
      | cons first p =>
          simp only [mkdirPFrom]
          by_cases more : (first :: p).dropWhile (· = slash) = []
          · rw [← segments_skip, more] at way
            cases way
            rw [if_pos more]
            rfl
          · have less := (segment_valid more).2.2
            have shorter : (((first :: p).dropWhile (· = slash)).dropWhile (· ≠ slash)).length ≤
                fuel := by omega
            rw [segments_cons more] at way
            rw [if_neg more, roomy.malloc]
            generalize segment : ((first :: p).dropWhile (· = slash)).takeWhile (· ≠ slash) = name
              at way
            cases way with
            | @step _ next _ node _ live parent isDir rest =>
                obtain ⟨-, dir, dirLive, -⟩ := inv.parent next node cur live parent
                have search := inv.vfsFindChildByName_eq
                  (Option.isSome_iff_exists.mpr ⟨dir, dirLive⟩) node.name
                rw [childNamed_child inv live parent] at search
                have goOn := ih rest shorter
                simp only [search, Bool.not_true, Bool.false_eq_true, if_false,
                  Option.bind_eq_bind, Option.bind_some, live, isDir, ne_eq, not_true_eq_false]
                exact goOn

/-! ## Lookup along the way -/

/-- No file system is mounted on a directory along the path. -/
def NoMountOn (s : Vfs ω π) (path : CStr) : Prop :=
  ∀ root way id node, s.rootNode = some root → way <+: segments path →
    NamedPath s root way id → s.nodes id = some node → node.mnt = none

/-- The way to an old node leads over old nodes. -/
theorem NamedPath.old (inv : TreeInv s) (grown : Extends s s') {root id : Nat}
    {names : List CStr} (way : NamedPath s' root names id) (old : (s.nodes id).isSome) :
    NamedPath s root names id := by
  induction way with
  | root => exact .root
  | @child names above id node' way live' parent' ih =>
      obtain ⟨node, live⟩ := Option.isSome_iff_exists.mp old
      obtain ⟨other, otherLive, name, -, parent, -⟩ := grown.node id node live
      obtain rfl := Option.some.inj (live'.symm.trans otherLive)
      have above' := parent.symm.trans parent'
      obtain ⟨-, dir, dirLive, -⟩ := inv.parent id node above live above'
      rw [name]
      exact .child (ih (Option.isSome_iff_exists.mpr ⟨dir, dirLive⟩)) live above'

/-- New directories are not covered either. -/
theorem NoMountOn.extends {path : CStr} (plain : NoMountOn s path) (inv : TreeInv s)
    (grown : Extends s s') : NoMountOn s' path := by
  intro root way id node' isRoot isPrefix named live'
  rw [grown.rootNode] at isRoot
  rcases grown.new id node' live' with old | ⟨-, unmounted⟩
  · obtain ⟨node, live⟩ := Option.isSome_iff_exists.mp old
    obtain ⟨other, otherLive, -, -, -, mnt⟩ := grown.node id node live
    obtain rfl := Option.some.inj (live'.symm.trans otherLive)
    rw [mnt]
    exact plain root way id node isRoot isPrefix (named.old inv grown old) live
  · exact unmounted

/-- Along a way without mounts the lookup finds each directory. -/
theorem DirWay.resolves (inv : TreeInv s) {root cur stop : Nat} {before names : List CStr}
    (way : DirWay s cur names stop) (named : NamedPath s root before cur)
    (plain : ∀ way id node, way <+: before ++ names → NamedPath s root way id →
      s.nodes id = some node → node.mnt = none) (mnt : Option Nat) :
    names.foldl (resolveStep code true) (s, some (cur, mnt)) = (s, some (stop, mnt)) := by
  induction way generalizing before with
  | here => rfl
  | @step cur next stop node names live parent isDir rest ih =>
      have named' := named.child live parent
      have isPrefix : before ++ [node.name] <+: before ++ node.name :: names :=
        ⟨names, by simp⟩
      have uncovered := plain _ next node isPrefix named' live
      have first := inv.resolveStep_child code live parent mnt true
      rw [if_pos rfl, crossAll_uncovered live uncovered] at first
      rw [List.foldl_cons, first]
      apply ih named'
      rwa [← List.append_cons]

/-- Nothing is found behind an empty name. -/
theorem resolve_empty_name {path : CStr} (named : [] ∈ pathNames path) :
    (resolve code s path).2 = none := by
  have nowhere (names : List CStr) (state : Vfs ω π × Option (Nat × Option Nat))
      (member : [] ∈ names) : (names.foldl (resolveStep code true) state).2 = none := by
    induction names generalizing state with
    | nil => cases member
    | cons name names ih =>
        rw [List.foldl_cons]
        rcases List.mem_cons.mp member with rfl | rest
        · obtain ⟨t, position⟩ := state
          have first : resolveStep code true (t, position) [] = (t, none) := by
            cases position with
            | none => rfl
            | some position => simp [resolveStep]
          rw [first, ← resolveFrom_true, resolveFrom_none]
        · exact ih _ rest
  exact nowhere _ _ named

/-! ## What was there before -/

/-- A name that leads to an old node leads on from an old one, and adds none. -/
theorem resolveStep_old (materialises : code.Materialises) (ns : Namespace s) (roomy : s.Roomy)
    {t t' : Vfs ω π} (builds : Builds s t) {position next : Nat × Option Nat}
    (here : Position t position) {name : CStr}
    (found : resolveStep code true (t, some position) name = (t', some next))
    (before : (s.nodes position.1).isSome → t = s) (old : (s.nodes next.1).isSome) : t' = s := by
  have inv := ns.tree
  obtain ⟨-, more, child⟩ :=
    childOr_spec materialises (builds.names ns) (builds.roomy inv roomy) here name
  have all : Builds s (childOr code t position.2 position.1 name).1 := builds.trans more
  obtain ⟨inv', grown⟩ := all.tree inv
  unfold resolveStep at found
  by_cases empty : name = []
  · simp [empty] at found
  · simp only [if_neg empty, if_true] at found
    generalize result : childOr code t position.2 position.1 name = made at found child grown inv'
    obtain ⟨t₁, id⟩ := made
    obtain ⟨rfl, same⟩ := Prod.mk.inj found
    obtain ⟨id, rfl, rfl⟩ := Option.map_eq_some_iff.mp same
    obtain ⟨node', live', parent', name'⟩ := childNamed_spec inv' (child id rfl)
    rcases grown.new id node' live' with isOld | ⟨new, unmounted⟩
    · obtain ⟨node, live⟩ := Option.isSome_iff_exists.mp isOld
      obtain ⟨other, same', sameName, -, sameParent, -⟩ := grown.node id node live
      obtain rfl := Option.some.inj (live'.symm.trans same')
      have parent : node.parent = some position.1 := sameParent.symm.trans parent'
      obtain ⟨-, dir, dirLive, -⟩ := inv.parent id node position.1 live parent
      obtain rfl := before (Option.isSome_iff_exists.mpr ⟨dir, dirLive⟩)
      have there : childNamed t position.1 name = some id := by
        rw [← name', sameName]
        exact childNamed_child inv live parent
      unfold childOr at result
      rw [there] at result
      exact (Prod.mk.inj result).1.symm
    · rw [crossAll_uncovered live' unmounted] at old
      obtain ⟨node, live⟩ := Option.isSome_iff_exists.mp old
      exact absurd (inv.lt id node live) (Nat.not_lt.mpr new)

/-- A path that leads to an old node adds none. -/
theorem resolve_old (materialises : code.Materialises) (ns : Namespace s) (roomy : s.Roomy)
    {path : CStr} {position : Nat × Option Nat} (found : resolve code s path = (s', some position))
    (old : (s.nodes position.1).isSome) : s' = s := by
  have along (names : List CStr) (t : Vfs ω π) (here : Nat × Option Nat) (builds : Builds s t)
      (there : Position t here) (before : (s.nodes here.1).isSome → t = s)
      (found : names.foldl (resolveStep code true) (t, some here) = (s', some position)) :
      s' = s := by
    induction names generalizing t here with
    | nil =>
        obtain ⟨rfl, same⟩ := Prod.mk.inj found
        obtain rfl := Option.some.inj same
        exact before old
    | cons name names ih =>
        rw [List.foldl_cons] at found
        have spec := resolveStep_spec materialises (builds.names ns)
          (builds.roomy ns.tree roomy) there true name
        generalize step : resolveStep code true (t, some here) name = next at found spec
        obtain ⟨t₁, next⟩ := next
        cases next with
        | none =>
            rw [← resolveFrom_true, resolveFrom_none] at found
            cases (Prod.mk.inj found).2
        | some next =>
            exact ih t₁ next (builds.trans spec.1) (spec.2 next rfl)
              (resolveStep_old materialises ns roomy builds there step before) found
  unfold resolve at found
  cases isRoot : s.rootNode with
  | none =>
      rw [isRoot, Option.map_none, ← resolveFrom_true, resolveFrom_none] at found
      cases (Prod.mk.inj found).2
  | some root =>
      rw [isRoot] at found
      exact along _ s _ .refl (ns.crossAll_position (ns.root_position isRoot)) (fun _ => rfl) found

/-- Nodes that are added hide none that a path led to. -/
theorem vfsLookup_kept (materialises : code.Materialises) (ns : Namespace s) (roomy : s.Roomy)
    (builds : Builds s s') {path : CStr} {t : Vfs ω π} {id : Nat}
    (found : vfsLookup code s (some path) = some (t, some id)) (old : (s.nodes id).isSome) :
    vfsLookup code s' (some path) = some (s', some id) := by
  obtain ⟨inv', grown⟩ := builds.tree ns.tree
  by_cases absolute : vfsIsPathValid path = true
  · rw [vfsLookup_eq materialises ns roomy absolute] at found
    rw [vfsLookup_eq materialises (builds.names ns) (builds.roomy ns.tree roomy) absolute]
    obtain ⟨rfl, named⟩ := Prod.mk.inj (Option.some.inj found)
    obtain ⟨position, isPosition, rfl⟩ := Option.map_eq_some_iff.mp named
    have result : resolve code s path = ((resolve code s path).1, some position) := by
      rw [← isPosition]
    rw [resolve_old materialises ns roomy result old, ← resolveEx_true] at result
    rw [← resolveEx_true, resolveEx_again materialises ns roomy result inv' grown]
    rfl
  · rw [Bool.not_eq_true] at absolute
    simp [vfsLookup, absolute] at found

/-! ## A path that has been made -/

/-- `vfs_mkdir_p` once more returns the same directory and changes nothing. -/
theorem vfsMkdirP_again (ns : Namespace s) (roomy : s.Roomy) {path : CStr} {id : Nat}
    (made : vfsMkdirP s (some path) = some (s', some id)) :
    ∃ root, s.rootNode = some root ∧ DirWay s' root (segments path) id ∧
      vfsIsPathValid path = true ∧ vfsMkdirP s' (some path) = some (s', some id) := by
  have builds := vfsMkdirP_builds ns.tree made
  obtain ⟨inv', grown⟩ := builds.tree ns.tree
  simp only [vfsMkdirP] at made ⊢
  split at made
  · cases (Prod.mk.inj (Option.some.inj made)).2
  · next absolute =>
    rw [grown.rootNode, if_neg absolute]
    cases isRoot : s.rootNode with
    | none =>
        rw [isRoot] at made
        cases (Prod.mk.inj (Option.some.inj made)).2
    | some root =>
        rw [isRoot] at made
        have way := mkdirPFrom_way ns.tree (ns.root_position isRoot).node made
        exact ⟨root, rfl, way, by simpa using absolute,
          mkdirPFrom_there inv' (builds.roomy ns.tree roomy) way (Nat.le_refl _)⟩

/-- Path lookup finds the directory that `vfs_mkdir_p` has made along the same
path, unless two slashes meet in it: `vfs_mkdir_p` skips them and the lookup
gives up. -/
theorem mkdir_p_lookup (materialises : code.Materialises) (ns : Namespace s) (roomy : s.Roomy)
    {path : CStr} (plain : NoMountOn s path) {id : Nat}
    (made : vfsMkdirP s (some path) = some (s', some id)) :
    (vfsLookup code s' (some path) = some (s', some id) ∧
      vfsMkdirP s' (some path) = some (s', some id) ∧
      ∀ older t node, vfsLookup code s older = some (t, some node) → (s.nodes node).isSome →
        vfsLookup code s' older = some (s', some node)) ↔
      ¬ [slash, slash] <:+: path := by
  have builds := vfsMkdirP_builds ns.tree made
  obtain ⟨inv', grown⟩ := builds.tree ns.tree
  have roomy' := builds.roomy ns.tree roomy
  obtain ⟨root, isRoot, way, absolute, again⟩ := vfsMkdirP_again ns roomy made
  have search := vfsLookup_eq materialises (builds.names ns) roomy' absolute
  constructor
  · rintro ⟨found, -⟩ meet
    obtain ⟨cursor, rfl⟩ := absolute_cons absolute
    have nowhere : (resolve code s' (slash :: cursor)).2 = none :=
      resolve_empty_name ((empty_name_iff cursor).mpr meet)
    rw [search, nowhere] at found
    cases (Prod.mk.inj (Option.some.inj found)).2
  · intro apart
    refine ⟨?_, again, ?_⟩
    · have plain' := plain.extends ns.tree grown
      have isRoot' := grown.rootNode.trans isRoot
      obtain ⟨node, rootLive⟩ := Option.isSome_iff_exists.mp (ns.root_position isRoot).node
      obtain ⟨node', rootLive', -⟩ := grown.node root node rootLive
      have uncovered := plain' root [] root node' isRoot' List.nil_prefix .root rootLive'
      have found : resolve code s' path = (s', some (id, none)) := by
        unfold resolve
        rw [isRoot', ← segments_pathNames absolute apart, Option.map_some,
          crossAll_uncovered rootLive' uncovered]
        apply way.resolves inv' .root
        intro before id node isPrefix named live
        exact plain' root before id node isRoot' isPrefix named live
      rw [search, found]
      rfl
    · intro older t node found old
      cases older with
      | none => simp [vfsLookup] at found
      | some older => exact vfsLookup_kept materialises ns roomy builds found old

theorem started_reachable : (vfsLts dirFs).Reachable started := .initial ⟨_, _, rfl⟩

theorem dirFs_materialises : dirFs.Materialises := by
  intro address lookup s mount dir name isLookup
  cases isLookup

theorem started_noMountOn (path : CStr) : NoMountOn started path := by
  intro root way id node _ _ _ live
  cases id with
  | zero =>
      obtain rfl := Option.some.inj live
      rfl
  | succ id => cases live

/-- The directory /a/b is made and found. -/
theorem mkdir_p_lookup_started :
    ∃ s', vfsMkdirP started (some [47, 97, 47, 98]) = some (s', some 2) ∧
      vfsLookup dirFs s' (some [47, 97, 47, 98]) = some (s', some 2) ∧
      vfsMkdirP s' (some [47, 97, 47, 98]) = some (s', some 2) ∧
      ∀ older t node, vfsLookup dirFs started older = some (t, some node) →
        (started.nodes node).isSome → vfsLookup dirFs s' older = some (s', some node) := by
  have names := (FileInv.reachable dirFs_honest started_reachable).names
  refine ⟨_, rfl, ?_⟩
  exact (mkdir_p_lookup dirFs_materialises names (fun _ => rfl)
    (started_noMountOn [47, 97, 47, 98]) rfl).mpr (by decide)

/-- `vfs_mkdir_p` makes "/a//b", and the lookup does not find it. -/
theorem doubled_slash_lost :
    ¬ ∀ (code : FsCode Unit Unit) s s' path id, code.Materialises → (vfsLts code).Reachable s →
      s.Roomy → NoMountOn s path → vfsMkdirP s (some path) = some (s', some id) →
      vfsLookup code s' (some path) = some (s', some id) := by
  intro agree
  have found := agree dirFs started _ [47, 97, 47, 47, 98] 2 dirFs_materialises started_reachable
    (fun _ => rfl) (started_noMountOn _) rfl
  have lost : some none = some (some 2) := congrArg (Option.map Prod.snd) found
  cases lost

end Zsbl.Common
