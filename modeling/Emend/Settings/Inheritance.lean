import Emend.OnChain
import Emend.Settings.File

/-! # Settings that build on others

A file's own settings, completed by those of the files it builds on, in order and each with its own bases.
No file may build on itself, over whatever others; two may build on the same one.
-/

namespace Emend

namespace Settings

/-- What tells files apart: the components of a path without links, or of the path as given if it leads nowhere. -/
abbrev FileKey := List FilePath.Component

def keyOfNames (names : List String) : FileKey := .root :: names.map .name

def keyOf (t : FileTree) (path : FilePath) : FileKey :=
  match t.locate path with
  | .ok names => keyOfNames names
  | .error _ => path.components

end Settings

open Settings

namespace FileTree

mutual

/-- The settings of a file, completed by those of the files it builds on. -/
def loadOnChain (t : FileTree) (path : FilePath) : OnChain FileKey Settings := do
  let key := keyOf t path
  if (← get).contains key then throw (.config s!"Circular 'extends' involving '{path.text}'")
  modify (key :: ·)
  let own ← liftExcept (Settings.read t path)
  let settings ← t |>.completeOnChain (path.parent?.getD ⟨"."⟩) (own.bases.getD []) own
  modify (·.erase key)
  return settings
partial_fixpoint

/-- Settings completed by those of the listed files, as seen from `folder`. -/
def completeOnChain (t : FileTree) (folder : FilePath) (bases : List String) (s : Settings) :
    OnChain FileKey Settings := do
  match bases with
  | [] => return s
  | base :: bases =>
    let below ← t |>.loadOnChain (folder.join ⟨base⟩)
    t |>.completeOnChain folder bases (s.merge below)
partial_fixpoint

end

end FileTree

namespace Settings

def unvisited (t : FileTree) (chain : List FileKey) : Nat :=
  (t.files.filter fun f => !chain.contains (keyOfNames f.1)).length

theorem keyOfNames_inj {names names' : List String} : keyOfNames names = keyOfNames names' ↔ names = names' := by
  rw [keyOfNames, keyOfNames, List.cons.injEq, and_iff_right rfl]
  exact List.map_inj_right fun _ _ h => FilePath.Component.name.inj h

theorem mem_of_content? {t : FileTree} {names : List String} {content : ByteArray}
    (h : t.content? names = some content) : (names, content) ∈ t.files := by
  obtain ⟨l₁, l₂, e, _⟩ := List.lookup_eq_some_iff.1 h
  simp [e]

theorem file_eq_ok_iff {t : FileTree} {path : FilePath} {names : List String} {content : ByteArray} :
    t.file path = .ok (names, content) ↔ t.locate path = .ok names ∧ t.content? names = some content := by
  unfold FileTree.file
  constructor
  · intro h
    split at h
    · cases h
    next located =>
      split at h
      next found =>
        cases h
        exact ⟨located, found⟩
      · cases h
  · rintro ⟨located, found⟩
    simp only [located, found]

theorem keyOf_of_file {t : FileTree} {path : FilePath} {names : List String} {content : ByteArray}
    (h : t.file path = .ok (names, content)) : keyOf t path = keyOfNames names := by
  rw [keyOf, (file_eq_ok_iff.1 h).1]

theorem exists_file_of_read {t : FileTree} {path : FilePath} {own : Settings} (h : read t path = .ok own) :
    ∃ names content, t.file path = .ok (names, content) := by
  cases file : t.file path with
  | ok named => exact ⟨named.1, named.2, rfl⟩
  | error fault =>
    rw [read, FileTree.read, file] at h
    cases h

theorem unvisited_lt {t : FileTree} {chain : List FileKey} {path : FilePath} {own : Settings}
    (h : read t path = .ok own) (new : keyOf t path ∉ chain) :
    unvisited t (keyOf t path :: chain) < unvisited t chain := by
  obtain ⟨names, content, file⟩ := exists_file_of_read h
  rw [keyOf_of_file file] at new ⊢
  have split : ∀ files : List (List String × ByteArray),
      (files.filter fun f => !(keyOfNames names :: chain).contains (keyOfNames f.1)) =
        (files.filter fun f => !chain.contains (keyOfNames f.1)).filter fun f => f.1 != names := by
    intro files
    rw [List.filter_filter]
    congr 1
    funext f
    by_cases e : f.1 = names <;> simp [e, keyOfNames_inj]
  have found : (names, content) ∈ t.files.filter fun f => !chain.contains (keyOfNames f.1) := by
    simp [mem_of_content? (file_eq_ok_iff.1 file).2, new]
  unfold unvisited
  rw [split]
  exact List.length_filter_lt_length_iff_exists.2 ⟨_, found, by simp⟩

/-- The settings of a file below those on the chain, which is only read. -/
def loadBelow (t : FileTree) (chain : List FileKey) (path : FilePath) : Except Error Settings :=
  if new : keyOf t path ∈ chain then .error (.config s!"Circular 'extends' involving '{path.text}'")
  else
    match h : read t path with
    | .error e => .error e
    | .ok own =>
      have := unvisited_lt h new
      let folder := path.parent?.getD ⟨"."⟩
      (own.bases.getD []).foldlM (fun (s : Settings) base => do
        return s.merge (← loadBelow t (keyOf t path :: chain) (folder.join ⟨base⟩))) own
termination_by unvisited t chain

theorem loadBelow_of_mem {t : FileTree} {chain : List FileKey} {path : FilePath} (old : keyOf t path ∈ chain) :
    loadBelow t chain path = .error (.config s!"Circular 'extends' involving '{path.text}'") := by
  rw [loadBelow, dif_pos old]

theorem loadBelow_of_error {t : FileTree} {chain : List FileKey} {path : FilePath} {e : Error}
    (new : keyOf t path ∉ chain) (unread : read t path = .error e) : loadBelow t chain path = .error e := by
  rw [loadBelow, dif_neg new]
  split
  next other => exact other.symm.trans unread
  next other => cases other.symm.trans unread

theorem loadBelow_of_read {t : FileTree} {chain : List FileKey} {path : FilePath} {own : Settings}
    (new : keyOf t path ∉ chain) (written : read t path = .ok own) :
    loadBelow t chain path = (own.bases.getD []).foldlM (fun (s : Settings) base => do
      return s.merge (← loadBelow t (keyOf t path :: chain) ((path.parent?.getD ⟨"."⟩).join ⟨base⟩))) own := by
  rw [loadBelow, dif_neg new]
  split
  next other => cases other.symm.trans written
  next other =>
    cases other.symm.trans written
    rfl

theorem ends_completeOnChain {t : FileTree} {chain : List FileKey}
    (h : ∀ path, (t.loadOnChain path).Ends chain (loadBelow t chain path)) (folder : FilePath) (bases : List String)
    (s : Settings) :
    (t.completeOnChain folder bases s).Ends chain
      (bases.foldlM (fun s base => do return s.merge (← loadBelow t chain (folder.join ⟨base⟩))) s) := by
  induction bases generalizing s with
  | nil =>
    rw [FileTree.completeOnChain]
    exact .pure s
  | cons base bases ih =>
    rw [FileTree.completeOnChain, List.foldlM_cons, bind_assoc]
    exact (h _).bind fun below _ => ih (s.merge below)

/-- Loading ends, and the chain is at every file what it is built on by. -/
theorem ends_loadOnChain (t : FileTree) (chain : List FileKey) (path : FilePath) :
    (t.loadOnChain path).Ends chain (loadBelow t chain path) := by
  rw [FileTree.loadOnChain]
  refine .get_bind ?_
  by_cases old : keyOf t path ∈ chain
  · rw [loadBelow_of_mem old, if_pos (List.contains_iff_mem.2 old)]
    exact .throw _
  rw [if_neg fun contained => old (List.contains_iff_mem.1 contained)]
  cases written : read t path with
  | error e =>
    rw [loadBelow_of_error old written]
    rfl
  | ok own =>
    have shorter := unvisited_lt written old
    rw [loadBelow_of_read old written, ← bind_pure (List.foldlM _ own _)]
    have below := ends_completeOnChain (ends_loadOnChain t (keyOf t path :: chain))
    exact .within (below _ _ own) (List.erase_cons_head _ _) fun settings _ => .pure settings
termination_by unvisited t chain

/-- The settings of a file and of those it builds on. -/
def load (t : FileTree) (path : FilePath) : Except Error Settings :=
  (t.loadOnChain path).result [] (ends_loadOnChain t [] path).isSome

theorem load_eq_loadBelow (t : FileTree) (path : FilePath) : load t path = loadBelow t [] path :=
  (ends_loadOnChain t [] path).result_eq

end Settings
end Emend
