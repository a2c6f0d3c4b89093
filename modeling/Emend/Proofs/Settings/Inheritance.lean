import Emend.Proofs.Json.Printing
import Emend.Proofs.Outcome
import Emend.Settings.Inheritance
import Mathlib.Data.List.Nodup
import Mathlib.Logic.Relation

/-! # Settings come from the first file that sets them

The files that a file builds on are a tree, read from the top and from left to right. Loading fails exactly if that tree
has a place where no settings can be read, or where a file comes again below itself. Otherwise each setting is the first
that the tree holds, and the directories are those of all its files (`load_first_set_wins`).
-/

namespace Emend

section Repetitions

variable {α : Type} [BEq α] [LawfulBEq α]

theorem eraseDups_filter (p : α → Bool) (l : List α) : (l.filter p).eraseDups = l.eraseDups.filter p := by
  match l with
  | [] => rfl
  | a :: l =>
    have shorter := List.length_filter_le (fun b => !b == a) l
    have ih := eraseDups_filter p (l.filter fun b => !b == a)
    rw [List.eraseDups_cons]
    by_cases ha : p a = true
    · rw [List.filter_cons_of_pos ha, List.filter_cons_of_pos ha, List.eraseDups_cons, ← ih,
        List.filter_filter, List.filter_filter]
      simp only [Bool.and_comm]
    · have same : (l.filter fun b => !b == a).filter p = l.filter p := by
        rw [List.filter_filter]
        refine List.filter_congr fun b _ => ?_
        by_cases hb : b = a
        · simp [hb, ha]
        · simp [hb]
      rw [List.filter_cons_of_neg ha, List.filter_cons_of_neg ha, ← ih, same]
termination_by l.length

/-- What is left of a list depends on its parts only by what is left of them. -/
theorem eraseDups_append_congr {as as' bs bs' : List α} (ha : as.eraseDups = as'.eraseDups)
    (hb : bs.eraseDups = bs'.eraseDups) : (as ++ bs).eraseDups = (as' ++ bs').eraseDups := by
  have members : ∀ b, as.elem b = as'.elem b := by
    intro b
    rw [Bool.eq_iff_iff, List.elem_iff, List.elem_iff, ← List.mem_eraseDups, ha, List.mem_eraseDups]
  rw [List.eraseDups_append, List.eraseDups_append, ha, List.removeAll, List.removeAll, eraseDups_filter,
    eraseDups_filter, hb]
  simp only [members]

end Repetitions

theorem eraseDups_addMissing (there more : List String) :
    (addMissing there more).eraseDups = (there ++ more).eraseDups := by
  induction more generalizing there with
  | nil => rw [addMissing, List.append_nil]
  | cons s more ih =>
    rw [addMissing, ih]
    by_cases hs : there.contains s = true
    · rw [if_pos hs, List.eraseDups_append, List.eraseDups_append, List.removeAll, List.removeAll,
        List.filter_cons_of_neg (by simpa using hs)]
    · rw [if_neg hs, List.append_assoc, List.singleton_append]

theorem bind_mergeSection {α β : Type} {merge : α → α → α} {setting : α → Option β}
    (h : ∀ a b, setting (merge a b) = (setting a <|> setting b)) (a b : Option α) :
    (mergeSection merge a b).bind setting = (a.bind setting).or (b.bind setting) := by
  cases a with
  | none => cases b <;> rfl
  | some a =>
    cases b with
    | none => exact Option.or_none.symm
    | some b => exact (h a b).trans Option.orElse_eq_or

namespace Settings

theorem eraseDups_directories_merge (a b : Settings) :
    (a.merge b).directories.eraseDups = (a.directories ++ b.directories).eraseDups := by
  simp only [directories, merge]
  cases a.recipes with
  | none => cases b.recipes <;> rfl
  | some own =>
    cases b.recipes with
    | none => simp [mergeSection]
    | some other =>
      cases hd : other.directories with
      | none => simp [mergeSection, RecipeSettings.merge, hd]
      | some more => simpa [mergeSection, RecipeSettings.merge, hd] using eraseDups_addMissing _ _

/-- Every setting is the first one set in a list of settings, and the directories are those of them all. -/
structure FirstSetWins (order : List Settings) (s : Settings) : Prop where
  parallel : s.pipeline.bind (·.parallel) = order.findSome? (·.pipeline.bind (·.parallel))
  failFast : s.pipeline.bind (·.failFast) = order.findSome? (·.pipeline.bind (·.failFast))
  threads : s.pipeline.bind (·.threads) = order.findSome? (·.pipeline.bind (·.threads))
  checkIdempotence : s.pipeline.bind (·.checkIdempotence) = order.findSome? (·.pipeline.bind (·.checkIdempotence))
  active : s.recipes.bind (·.active) = order.findSome? (·.recipes.bind (·.active))
  directories : s.directories.eraseDups = (order.flatMap directories).eraseDups

theorem FirstSetWins.single (s : Settings) : FirstSetWins [s] s where
  parallel := by simp [List.findSome?_singleton]
  failFast := by simp [List.findSome?_singleton]
  threads := by simp [List.findSome?_singleton]
  checkIdempotence := by simp [List.findSome?_singleton]
  active := by simp [List.findSome?_singleton]
  directories := by simp

/-- Merging reads one list of settings behind the other. -/
theorem FirstSetWins.merge {order order' : List Settings} {s s' : Settings} (h : FirstSetWins order s)
    (h' : FirstSetWins order' s') : FirstSetWins (order ++ order') (s.merge s') where
  parallel := by
    rw [List.findSome?_append, ← h.parallel, ← h'.parallel]
    exact bind_mergeSection (fun _ _ => rfl) _ _
  failFast := by
    rw [List.findSome?_append, ← h.failFast, ← h'.failFast]
    exact bind_mergeSection (fun _ _ => rfl) _ _
  threads := by
    rw [List.findSome?_append, ← h.threads, ← h'.threads]
    exact bind_mergeSection (fun _ _ => rfl) _ _
  checkIdempotence := by
    rw [List.findSome?_append, ← h.checkIdempotence, ← h'.checkIdempotence]
    exact bind_mergeSection (fun _ _ => rfl) _ _
  active := by
    rw [List.findSome?_append, ← h.active, ← h'.active]
    exact bind_mergeSection (fun _ _ => rfl) _ _
  directories := by
    rw [eraseDups_directories_merge, List.flatMap_append]
    exact eraseDups_append_congr h.directories h'.directories

/-- A file of settings that others build on: the names of those, the innermost first, and its path. -/
structure Place where
  above : List (List String)
  path : FilePath

/-- Where a path in the list of a file leads. -/
def Place.base (p : Place) (names : List String) (base : String) : Place :=
  ⟨names :: p.above, (p.path.parent?.getD ⟨"."⟩).join ⟨base⟩⟩

/-- The file of those names is at the path, and these are the settings that it writes. -/
def Holds (t : FileTree) (path : FilePath) (names : List String) (own : Settings) : Prop :=
  (∃ content, t.file path = .ok (names, content)) ∧ read t path = .ok own

/-- From a file to one that it builds on. -/
inductive BuildsOn (t : FileTree) : Place → Place → Prop where
  | base {p : Place} {names : List String} {own : Settings} {base : String} (holds : Holds t p.path names own)
      (new : names ∉ p.above) (listed : base ∈ own.bases.getD []) : BuildsOn t p (p.base names base)

/-- The path leads to no settings, or to a file that builds on itself. -/
def Broken (t : FileTree) (p : Place) : Prop :=
  (∃ e, read t p.path = .error e) ∨ ∃ names content, t.file p.path = .ok (names, content) ∧ names ∈ p.above

mutual

/-- The settings of a file, then those that it builds on, each followed by its own. -/
inductive Expands (t : FileTree) : Place → List Settings → Prop where
  | file {p : Place} {names : List String} {own : Settings} {order : List Settings} (holds : Holds t p.path names own)
      (new : names ∉ p.above) (bases : ExpandsAll t ((own.bases.getD []).map (p.base names)) order) :
      Expands t p (own :: order)

inductive ExpandsAll (t : FileTree) : List Place → List Settings → Prop where
  | nil : ExpandsAll t [] []
  | cons {p : Place} {ps : List Place} {order more : List Settings} (first : Expands t p order)
      (rest : ExpandsAll t ps more) : ExpandsAll t (p :: ps) (order ++ more)

end

variable {t : FileTree}

theorem Holds.unique {path : FilePath} {names names' : List String} {own own' : Settings}
    (h : Holds t path names own) (h' : Holds t path names' own') : names = names' ∧ own = own' := by
  obtain ⟨⟨content, file⟩, hread⟩ := h
  obtain ⟨⟨content', file'⟩, hread'⟩ := h'
  cases file.symm.trans file'
  cases hread.symm.trans hread'
  exact ⟨rfl, rfl⟩

mutual

theorem Expands.unique {p : Place} {order order' : List Settings} :
    Expands t p order → Expands t p order' → order = order'
  | .file holds _ bases, .file holds' _ bases' => by
    obtain ⟨rfl, rfl⟩ := holds'.unique holds
    exact congrArg _ (bases.unique bases')

theorem ExpandsAll.unique {ps : List Place} {order order' : List Settings} :
    ExpandsAll t ps order → ExpandsAll t ps order' → order = order'
  | .nil, .nil => rfl
  | .cons first rest, .cons first' rest' => by rw [first.unique first', rest.unique rest']

end

theorem ExpandsAll.of_mem {ps : List Place} {order : List Settings} (h : ExpandsAll t ps order) {p : Place}
    (hp : p ∈ ps) : ∃ order, Expands t p order := by
  induction ps generalizing order with
  | nil => cases hp
  | cons first ps ih =>
    obtain _ | ⟨expands, rest⟩ := h
    obtain rfl | hp := List.mem_cons.1 hp
    · exact ⟨_, expands⟩
    · exact ih rest hp

theorem Expands.not_broken {p : Place} {order : List Settings} (h : Expands t p order) : ¬ Broken t p := by
  obtain ⟨⟨⟨content, file⟩, hread⟩, new, _⟩ := h
  rintro (⟨e, he⟩ | ⟨names, content', file', below⟩)
  · cases hread.symm.trans he
  · cases file.symm.trans file'
    exact new below

/-- Below what expands everything expands. -/
theorem BuildsOn.expands {p p' : Place} (h : BuildsOn t p p') (expands : ∃ order, Expands t p order) :
    ∃ order, Expands t p' order := by
  obtain ⟨holds, new, listed⟩ := h
  obtain ⟨_, holds', _, bases⟩ := expands
  obtain ⟨rfl, rfl⟩ := holds.unique holds'
  exact bases.of_mem (List.mem_map_of_mem listed)

theorem Expands.not_broken_of_reached {p p' : Place} {order : List Settings} (h : Expands t p order)
    (reached : Relation.ReflTransGen (BuildsOn t) p p') : ¬ Broken t p' := by
  have here : ∃ order, Expands t p' order := by
    induction reached with
    | refl => exact ⟨order, h⟩
    | tail _ step ih => exact step.expands ih
  obtain ⟨_, here⟩ := here
  exact here.not_broken

/-- On a chain of files no file comes twice, so there are as many at most as the tree has. -/
theorem chain_of_reached {path : FilePath} {p : Place} (h : Relation.ReflTransGen (BuildsOn t) ⟨[], path⟩ p) :
    p.above.Nodup ∧ ∀ names ∈ p.above, t.hasFile names = true := by
  induction h with
  | refl => exact ⟨List.nodup_nil, fun names hn => absurd hn List.not_mem_nil⟩
  | tail _ step ih =>
    obtain ⟨nodup, files⟩ := ih
    obtain ⟨⟨⟨content, file⟩, _⟩, new, _⟩ := step
    refine ⟨nodup.cons new, fun names hn => ?_⟩
    obtain rfl | hn := List.mem_cons.1 hn
    · rw [FileTree.hasFile, (file_eq_ok_iff.1 file).2]
      rfl
    · exact files names hn

/-- What is loaded at a place. -/
def loadAt (t : FileTree) (p : Place) : Except Error Settings := loadBelow t (p.above.map keyOfNames) p.path

/-- Settings completed by those at other places in turn. -/
def completeAt (t : FileTree) (own : Settings) (ps : List Place) : Except Error Settings :=
  ps.foldlM (fun (s : Settings) p => do return s.merge (← loadAt t p)) own

theorem holds_of_text {path : FilePath} {names : List String} {text : String} {own : Settings}
    (file : t.file path = .ok (names, text.toUTF8)) (written : ofFile path text = .ok own) :
    Holds t path names own := by
  refine ⟨⟨_, file⟩, ?_⟩
  rw [read, FileTree.read_of_text file]
  exact written

theorem keyOf_mem_iff {p : Place} {names : List String} {content : ByteArray}
    (file : t.file p.path = .ok (names, content)) : keyOf t p.path ∈ p.above.map keyOfNames ↔ names ∈ p.above := by
  rw [keyOf_of_file file, List.mem_map]
  constructor
  · rintro ⟨names', there, same⟩
    rwa [← keyOfNames_inj.1 same]
  · exact fun there => ⟨names, there, rfl⟩

/-- What loading at a place comes to: the settings there are completed, unless there are none or the file is on its own
chain. -/
theorem loadAt_cases (t : FileTree) (p : Place) :
    (Broken t p ∧ ∃ e, loadAt t p = .error e) ∨
      ∃ names own, Holds t p.path names own ∧ names ∉ p.above ∧
        loadAt t p = completeAt t own ((own.bases.getD []).map (p.base names)) := by
  cases written : read t p.path with
  | error e =>
    refine .inl ⟨.inl ⟨e, written⟩, ?_⟩
    by_cases old : keyOf t p.path ∈ p.above.map keyOfNames
    · exact ⟨_, loadBelow_of_mem old⟩
    · exact ⟨_, loadBelow_of_error old written⟩
  | ok own =>
    obtain ⟨names, content, file⟩ := exists_file_of_read written
    by_cases old : names ∈ p.above
    · exact .inl ⟨.inr ⟨names, content, file, old⟩, _, loadBelow_of_mem ((keyOf_mem_iff file).2 old)⟩
    · refine .inr ⟨names, own, ⟨⟨content, file⟩, written⟩, old, ?_⟩
      rw [loadAt, loadBelow_of_read (fun there => old ((keyOf_mem_iff file).1 there)) written, completeAt,
        List.foldlM_map, keyOf_of_file file]
      rfl

theorem unvisited_base_lt {p : Place} {names : List String} {own : Settings} (holds : Holds t p.path names own)
    (new : names ∉ p.above) (base : String) :
    unvisited t ((p.base names base).above.map keyOfNames) < unvisited t (p.above.map keyOfNames) := by
  obtain ⟨⟨content, file⟩, written⟩ := holds
  have shorter := unvisited_lt written fun there => new ((keyOf_mem_iff file).1 there)
  rwa [keyOf_of_file file] at shorter

theorem completeAt_eq_ok {own s : Settings} {ps : List Place} {before : List Settings} (start : FirstSetWins before own)
    (each : ∀ p ∈ ps, ∀ s, loadAt t p = .ok s → ∃ order, Expands t p order ∧ FirstSetWins order s)
    (completed : completeAt t own ps = .ok s) :
    ∃ order, ExpandsAll t ps order ∧ FirstSetWins (before ++ order) s := by
  induction ps generalizing own before with
  | nil =>
    cases completed
    exact ⟨[], .nil, by rwa [List.append_nil]⟩
  | cons p ps ih =>
    rw [completeAt, List.foldlM_cons, bind_eq_ok] at completed
    obtain ⟨merged, hmerged, rest⟩ := completed
    obtain ⟨below, loaded, hbelow⟩ := bind_eq_ok.1 hmerged
    cases hbelow
    obtain ⟨order, expands, first⟩ := each p List.mem_cons_self below loaded
    obtain ⟨more, expandsAll, last⟩ := ih (start.merge first) (fun p hp => each p (List.mem_cons_of_mem _ hp)) rest
    rw [List.append_assoc] at last
    exact ⟨order ++ more, .cons expands expandsAll, last⟩

theorem completeAt_eq_error {own : Settings} {ps : List Place} {e : Error} (failed : completeAt t own ps = .error e) :
    ∃ p ∈ ps, loadAt t p = .error e := by
  induction ps generalizing own with
  | nil => cases failed
  | cons p ps ih =>
    rw [completeAt, List.foldlM_cons] at failed
    cases loaded : loadAt t p with
    | error e' =>
      rw [loaded] at failed
      cases failed
      exact ⟨p, List.mem_cons_self, loaded⟩
    | ok below =>
      rw [loaded] at failed
      obtain ⟨p', hp', failed⟩ := ih failed
      exact ⟨p', List.mem_cons_of_mem _ hp', failed⟩

/-- Settings that are loaded are those of the whole tree. -/
theorem expands_of_loadAt {p : Place} {s : Settings} (loaded : loadAt t p = .ok s) :
    ∃ order, Expands t p order ∧ FirstSetWins order s := by
  obtain ⟨-, e, failed⟩ | ⟨names, own, holds, new, completed⟩ := loadAt_cases t p
  · cases loaded.symm.trans failed
  rw [completed] at loaded
  -- what a base is loaded from stands below one file more, which carries the recursion
  have each : ∀ p' ∈ (own.bases.getD []).map (p.base names), ∀ s, loadAt t p' = .ok s →
      ∃ order, Expands t p' order ∧ FirstSetWins order s := by
    intro p' hp' s loaded
    obtain ⟨base, _, rfl⟩ := List.mem_map.1 hp'
    have decreasing := unvisited_base_lt holds new base
    exact expands_of_loadAt loaded
  obtain ⟨order, bases, wins⟩ := completeAt_eq_ok (.single own) each loaded
  exact ⟨own :: order, .file holds new bases, wins⟩
termination_by unvisited t (p.above.map keyOfNames)

/-- Where loading fails, something is broken below. -/
theorem broken_of_loadAt {p : Place} {e : Error} (failed : loadAt t p = .error e) :
    ∃ p', Relation.ReflTransGen (BuildsOn t) p p' ∧ Broken t p' := by
  obtain ⟨broken, -⟩ | ⟨names, own, holds, new, completed⟩ := loadAt_cases t p
  · exact ⟨p, .refl, broken⟩
  rw [completed] at failed
  obtain ⟨p', hp', failed⟩ := completeAt_eq_error failed
  obtain ⟨base, listed, rfl⟩ := List.mem_map.1 hp'
  have decreasing := unvisited_base_lt holds new base
  obtain ⟨broken, reached, hbroken⟩ := broken_of_loadAt failed
  exact ⟨broken, .head (.base holds new listed) reached, hbroken⟩
termination_by unvisited t (p.above.map keyOfNames)

theorem load_eq_loadAt (t : FileTree) (path : FilePath) : load t path = loadAt t ⟨[], path⟩ := load_eq_loadBelow t path

theorem exists_load_of_expands {path : FilePath} {order : List Settings} (h : Expands t ⟨[], path⟩ order) :
    ∃ s, load t path = .ok s := by
  cases loaded : load t path with
  | ok s => exact ⟨s, rfl⟩
  | error e =>
    rw [load_eq_loadAt] at loaded
    obtain ⟨p, reached, broken⟩ := broken_of_loadAt loaded
    exact absurd broken (h.not_broken_of_reached reached)

/-- Loading ends: on a chain of files that build on each other none comes twice. It fails exactly if the chains lead to
a file that cannot be read or that is on its own chain. Otherwise the files are a tree, and read in pre-order the first
that sets a setting decides it. -/
theorem load_first_set_wins (t : FileTree) (path : FilePath) :
    (t.loadOnChain path).Ends [] (load t path) ∧
    (∀ p, Relation.ReflTransGen (BuildsOn t) ⟨[], path⟩ p →
      p.above.Nodup ∧ ∀ names ∈ p.above, t.hasFile names = true) ∧
    ((∃ e, load t path = .error e) ↔ ∃ p, Relation.ReflTransGen (BuildsOn t) ⟨[], path⟩ p ∧ Broken t p) ∧
    ∀ s, load t path = .ok s →
      ∃ order, (∀ other, Expands t ⟨[], path⟩ other ↔ other = order) ∧ FirstSetWins order s := by
  have ends : (t.loadOnChain path).Ends [] (load t path) := by
    rw [load_eq_loadBelow]
    exact ends_loadOnChain t [] path
  refine ⟨ends, fun p reached => chain_of_reached reached, ?_⟩
  rw [load_eq_loadAt]
  refine ⟨⟨?_, ?_⟩, fun s loaded => ?_⟩
  · rintro ⟨e, failed⟩
    exact broken_of_loadAt failed
  · rintro ⟨p, reached, broken⟩
    cases loaded : loadAt t ⟨[], path⟩ with
    | error e => exact ⟨e, rfl⟩
    | ok s =>
      obtain ⟨order, expands, -⟩ := expands_of_loadAt loaded
      exact absurd broken (expands.not_broken_of_reached reached)
  · obtain ⟨order, expands, wins⟩ := expands_of_loadAt loaded
    refine ⟨order, fun other => ⟨fun h => h.unique expands, ?_⟩, wins⟩
    rintro rfl
    exact expands

def written (own : Settings) : ByteArray := own.encode.print.toUTF8

theorem holds_of_written {path : FilePath} {names : List String} {own : Settings}
    (file : t.file path = .ok (names, written own)) (format : FileFormat.ofPath? path = some .json)
    (plain : own.encode.Plain) (decoded : decode .streamed own.encode = .ok own) : Holds t path names own := by
  have parsed : Json.parse? own.encode.print = some own.encode := Json.parse?_of_writes (Json.writes_print _ plain)
  refine holds_of_text file ?_
  simp only [ofFile, format, ofText, parsed, Option.map_some, decoded, Except.mapError]

/-- Two files share a base, one through a link and the other from the root; the second one sets what the base does. -/
def diamond : FileTree where
  files := [
    (["home", "a.json"], written { bases := some ["b.json", "/shared/c.json"] }),
    (["home", "b.json"], written { bases := some ["link.json"] }),
    (["shared", "c.json"], written { bases := some ["d.json"], pipeline := some { failFast := some false } }),
    (["shared", "d.json"], written { pipeline := some { failFast := some true } })]
  links := [(["home", "link.json"], ⟨"../shared/./d.json"⟩)]
  here := ["home"]

theorem load_first_set_wins_diamond :
    ∃ s, load diamond ⟨"a.json"⟩ = .ok s ∧ s.pipeline.bind (·.failFast) = some true := by
  have top : Holds diamond ⟨"a.json"⟩ ["home", "a.json"] { bases := some ["b.json", "/shared/c.json"] } :=
    holds_of_written rfl rfl (by simp [encode, Json.ofStrings]) rfl
  have first : Holds diamond ⟨"b.json"⟩ ["home", "b.json"] { bases := some ["link.json"] } :=
    holds_of_written rfl rfl (by simp [encode, Json.ofStrings]) rfl
  have second : Holds diamond ⟨"/shared/c.json"⟩ ["shared", "c.json"]
      { bases := some ["d.json"], pipeline := some { failFast := some false } } :=
    holds_of_written rfl rfl (by simp [encode, encodePipeline, Json.ofStrings, Json.orNull]) rfl
  have linked : Holds diamond ⟨"link.json"⟩ ["shared", "d.json"] { pipeline := some { failFast := some true } } :=
    holds_of_written rfl rfl (by simp [encode, encodePipeline, Json.orNull]) rfl
  have shared : Holds diamond ⟨"/shared/d.json"⟩ ["shared", "d.json"] { pipeline := some { failFast := some true } } :=
    holds_of_written rfl rfl (by simp [encode, encodePipeline, Json.orNull]) rfl
  have expands : Expands diamond ⟨[], ⟨"a.json"⟩⟩ _ :=
    .file top (by decide) (.cons (.file first (by decide) (.cons (.file linked (by decide) .nil) .nil))
      (.cons (.file second (by decide) (.cons (.file shared (by decide) .nil) .nil)) .nil))
  obtain ⟨s, loaded⟩ := exists_load_of_expands expands
  obtain ⟨order, unique, wins⟩ := (load_first_set_wins diamond ⟨"a.json"⟩).2.2.2 s loaded
  obtain rfl := (unique _).1 expands
  exact ⟨s, loaded, wins.failFast⟩

end Settings
end Emend
