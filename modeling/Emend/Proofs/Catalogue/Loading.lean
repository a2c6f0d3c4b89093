import Emend.Catalogue.Basic
import Emend.Proofs.Json.Decoding
import Emend.Proofs.Outcome
import Mathlib.Data.List.Nodup
import Mathlib.Data.List.Perm.Basic

/-! # Loading a recipe file

A file lists definitions, document by document, up to the first document that is invalid. They are registered one after
another, so that loading adds all of them or stops behind some, and what was added before a failure stays.
-/

namespace Emend

def RecipeDefinition.key (d : RecipeDefinition) : String := Text.trim d.name

/-- The definitions in the documents up to the first invalid one, and what is wrong with that one. -/
def RecipeDefinition.listing (path : FilePath) : List Json → List RecipeDefinition × Option Error
  | [] => ([], none)
  | document :: documents =>
    match ofDocument path document with
    | .error e => ([], some e)
    | .ok ds => (ds ++ (listing path documents).1, (listing path documents).2)

namespace Catalogue

variable {c c' : Catalogue} {origin : Option FilePath} {d : RecipeDefinition} {ds : List RecipeDefinition}

/-- The name can be given to one more definition. -/
structure Free (c : Catalogue) (name : String) : Prop where
  nonempty : name ≠ ""
  own : Recipes.isBuiltin name = false
  new : c.find? name = none

def enter (c : Catalogue) (origin : Option FilePath) (d : RecipeDefinition) : Catalogue :=
  ⟨c.declared.insert d.key ⟨d, origin⟩⟩

theorem register_eq_ok_iff : c.register d origin = .ok c' ↔ c.Free d.key ∧ c.enter origin d = c' := by
  unfold register
  dsimp only
  rw [← RecipeDefinition.key]
  by_cases unnamed : d.key = ""
  · rw [if_pos (String.isEmpty_iff.2 unnamed)]
    exact iff_of_false nofun fun ⟨free, _⟩ => free.nonempty unnamed
  rw [if_neg (mt String.isEmpty_iff.1 unnamed)]
  cases own : Recipes.isBuiltin d.key with
  | true =>
    rw [if_pos rfl]
    exact iff_of_false nofun fun ⟨free, _⟩ => by cases free.own.symm.trans own
  | false =>
    rw [if_neg Bool.false_ne_true]
    cases new : c.find? d.key with
    | some other => exact iff_of_false nofun fun ⟨free, _⟩ => by cases free.new.symm.trans new
    | none =>
      have free : c.Free d.key := ⟨unnamed, own, new⟩
      rw [and_iff_right free]
      exact ⟨Except.ok.inj, congrArg Except.ok⟩

theorem find?_enter_self : (c.enter origin d).find? d.key = some ⟨d, origin⟩ := SortedMap.find?_insert_self

theorem find?_enter_of_ne {name : String} (h : name ≠ d.key) : (c.enter origin d).find? name = c.find? name :=
  SortedMap.find?_insert_of_ne h

theorem names_enter (h : c.Free d.key) : (c.enter origin d).names.Perm (d.key :: c.names) :=
  ((SortedMap.keys_insert h.new).append_left _).trans List.perm_middle

theorem free_enter_iff {name : String} :
    (c.enter origin d).Free name ↔ name ≠ d.key ∧ c.Free name := by
  constructor
  · intro free
    have other : name ≠ d.key := by
      rintro rfl
      cases find?_enter_self.symm.trans free.new
    exact ⟨other, free.nonempty, free.own, (find?_enter_of_ne other).symm.trans free.new⟩
  · rintro ⟨other, free⟩
    exact ⟨free.nonempty, free.own, (find?_enter_of_ne other).trans free.new⟩

def registerAll (origin : Option FilePath) : List RecipeDefinition → Catalogue → Except Error Unit × Catalogue
  | [], c => (.ok (), c)
  | d :: ds, c =>
    match c.register d origin with
    | .ok c' => registerAll origin ds c'
    | .error e => (.error e, c)

/-- `c'` is `c` with the definitions under new names of their own, and nothing else. -/
structure Adds (c : Catalogue) (origin : Option FilePath) (ds : List RecipeDefinition) (c' : Catalogue) : Prop where
  distinct : (ds.map (·.key)).Nodup
  free : ∀ d ∈ ds, c.Free d.key
  names : c'.names.Perm (c.names ++ ds.map (·.key))
  added : ∀ d ∈ ds, c'.find? d.key = some ⟨d, origin⟩
  kept : ∀ name, name ∉ ds.map (·.key) → c'.find? name = c.find? name

theorem Adds.nil : Adds c origin [] c where
  distinct := .nil
  free := nofun
  names := by rw [List.map_nil, List.append_nil]
  added := nofun
  kept _ _ := rfl

theorem Adds.cons (free : c.Free d.key) (h : Adds (c.enter origin d) origin ds c') : Adds c origin (d :: ds) c' where
  distinct := by
    refine List.nodup_cons.2 ⟨fun again => ?_, h.distinct⟩
    obtain ⟨other, ho, he⟩ := List.mem_map.1 again
    exact (free_enter_iff.1 (h.free other ho)).1 he
  free := List.forall_mem_cons.2 ⟨free, fun other ho => (free_enter_iff.1 (h.free other ho)).2⟩
  names := by
    refine h.names.trans (((names_enter free).append_right _).trans ?_)
    exact List.perm_middle.symm
  added := by
    refine List.forall_mem_cons.2 ⟨?_, h.added⟩
    by_cases again : d.key ∈ ds.map (·.key)
    · obtain ⟨other, ho, he⟩ := List.mem_map.1 again
      exact absurd he (free_enter_iff.1 (h.free other ho)).1
    · exact (h.kept d.key again).trans find?_enter_self
  kept name hn := by
    rw [List.map_cons, List.mem_cons, not_or] at hn
    exact (h.kept name hn.2).trans (find?_enter_of_ne hn.1)

theorem Adds.eq_nil (h : Adds c origin ds c') (same : c' = c) : ds = [] := by
  cases ds with
  | nil => rfl
  | cons d ds =>
    have found := h.added d List.mem_cons_self
    rw [same, (h.free d List.mem_cons_self).new] at found
    cases found

theorem registerAll_of_free (free : c.Free d.key) (ds : List RecipeDefinition) :
    registerAll origin (d :: ds) c = registerAll origin ds (c.enter origin d) := by
  rw [registerAll, register_eq_ok_iff.2 ⟨free, rfl⟩]

theorem registerAll_of_not_free (origin : Option FilePath) (taken : ¬c.Free d.key) (ds : List RecipeDefinition) :
    ∃ e, registerAll origin (d :: ds) c = (.error e, c) := by
  cases refused : c.register d origin with
  | error e => exact ⟨e, by rw [registerAll, refused]⟩
  | ok c' => exact absurd (register_eq_ok_iff.1 refused).1 taken

theorem registerAll_append (ds more : List RecipeDefinition) (c : Catalogue) :
    registerAll origin (ds ++ more) c =
      match registerAll origin ds c with
      | (.ok (), c') => registerAll origin more c'
      | (.error e, c') => (.error e, c') := by
  induction ds generalizing c with
  | nil => rfl
  | cons d ds ih =>
    rw [List.cons_append, registerAll, registerAll]
    split
    · exact ih _
    · rfl

/-- Definitions are added from the first on, and all of them if there is no error. -/
theorem exists_adds_registerAll (origin : Option FilePath) (ds : List RecipeDefinition) (c : Catalogue) :
    ∃ done rest, ds = done ++ rest ∧ Adds c origin done (registerAll origin ds c).2 ∧
      ((registerAll origin ds c).1 = .ok () ↔ rest = []) := by
  induction ds generalizing c with
  | nil => exact ⟨[], [], rfl, .nil, iff_of_true rfl rfl⟩
  | cons d ds ih =>
    -- A definition that has been entered is in the way of a later one: the others start from the new catalogue.
    by_cases free : c.Free d.key
    · obtain ⟨done, rest, rfl, adds, ok⟩ := ih (c.enter origin d)
      rw [registerAll_of_free free]
      exact ⟨d :: done, rest, rfl, adds.cons free, ok⟩
    · obtain ⟨e, refused⟩ := registerAll_of_not_free origin free ds
      rw [refused]
      exact ⟨[], d :: ds, rfl, .nil, iff_of_false nofun (List.cons_ne_nil _ _)⟩

/-- Nothing is added exactly if the first definition has no free name. -/
theorem registerAll_snd_eq_self_iff :
    (registerAll origin ds c).2 = c ↔ ∀ d ∈ ds.head?, ¬c.Free d.key := by
  cases ds with
  | nil => exact iff_of_true rfl nofun
  | cons d ds =>
    by_cases free : c.Free d.key
    · rw [registerAll_of_free free]
      obtain ⟨done, -, -, adds, -⟩ := exists_adds_registerAll origin ds (c.enter origin d)
      exact iff_of_false (fun same => List.cons_ne_nil _ _ ((adds.cons free).eq_nil same)) fun taken => taken d rfl free
    · obtain ⟨e, refused⟩ := registerAll_of_not_free origin free ds
      rw [refused]
      refine iff_of_true rfl ?_
      rintro _ ⟨⟩
      exact free

theorem registerAll_eq_ok_of_free (distinct : (ds.map (·.key)).Nodup) (free : ∀ d ∈ ds, c.Free d.key) :
    (registerAll origin ds c).1 = .ok () := by
  induction ds generalizing c with
  | nil => rfl
  | cons d ds ih =>
    have first := free d List.mem_cons_self
    obtain ⟨new, distinct⟩ := List.nodup_cons.1 distinct
    rw [registerAll_of_free first]
    refine ih distinct fun other ho => free_enter_iff.2 ⟨fun he => ?_, free other (List.mem_cons_of_mem d ho)⟩
    exact new (List.mem_map.2 ⟨other, ho, he⟩)

/-- Registers what is listed, and fails behind it if something is wrong with the listing. -/
def registerListed (path : FilePath) (listed : List RecipeDefinition × Option Error) (c : Catalogue) :
    Except Error Nat × Catalogue :=
  match registerAll (some path) listed.1 c, listed.2 with
  | (.error e, c'), _ => (.error e, c')
  | (.ok (), c'), some e => (.error e, c')
  | (.ok (), c'), none => (.ok listed.1.length, c')

theorem registerListed_snd (path : FilePath) (listed : List RecipeDefinition × Option Error) (c : Catalogue) :
    (registerListed path listed c).2 = (registerAll (some path) listed.1 c).2 := by
  unfold registerListed
  obtain ⟨result, c'⟩ := registerAll (some path) listed.1 c
  cases result with
  | error e => rfl
  | ok _ => cases listed.2 <;> rfl

theorem registerListed_fst_eq_ok_iff {path : FilePath} {listed : List RecipeDefinition × Option Error} {n : Nat} :
    (registerListed path listed c).1 = .ok n ↔
      (registerAll (some path) listed.1 c).1 = .ok () ∧ listed.2 = none ∧ listed.1.length = n := by
  unfold registerListed
  obtain ⟨result, c'⟩ := registerAll (some path) listed.1 c
  cases result with
  | error e => exact iff_of_false nofun nofun
  | ok _ =>
    cases listed.2 with
    | some e => exact iff_of_false nofun nofun
    | none =>
      rw [Except.ok.injEq]
      exact ⟨fun length => ⟨rfl, rfl, length⟩, fun all => all.2.2⟩

theorem run_forM_registerIn (ds : List RecipeDefinition) (c : Catalogue) :
    (ds.forM fun d => registerIn d origin).run.run c = registerAll origin ds c := by
  induction ds generalizing c with
  | nil => rfl
  | cons d ds ih =>
    change (registerIn d origin >>= fun _ => ds.forM fun d => registerIn d origin).run.run c = _
    rw [registerAll]
    cases registered : c.register d origin with
    | ok c' =>
      have one : (registerIn d origin).run.run c = (.ok (), c') := by
        rw [registerIn, run_get_bind, registered]
        rfl
      rw [run_bind_of_ok one]
      exact ih c'
    | error e =>
      have one : (registerIn d origin).run.run c = (.error e, c) := by
        rw [registerIn, run_get_bind, registered]
        rfl
      exact run_bind_of_error one

theorem total_cons (n : Nat) (counts : List Nat) : total (n :: counts) = n + total counts := by
  have sums (start : Nat) : counts.foldl Nat.add start = start + counts.foldl Nat.add 0 := by
    induction counts generalizing start with
    | nil => rfl
    | cons m counts ih => rw [List.foldl_cons, List.foldl_cons, ih, ih (Nat.add 0 m)]; simp [Nat.add_assoc]
  rw [total, List.foldl_cons, sums]
  simp [total]

theorem run_loadDocument {path : FilePath} {document : Json}
    (valid : RecipeDefinition.ofDocument path document = .ok ds) (c : Catalogue) :
    (loadDocument path document).run.run c =
      ((registerAll (some path) ds c).1.map fun _ => ds.length, (registerAll (some path) ds c).2) := by
  rw [loadDocument, valid]
  change ((ds.forM fun d => registerIn d (some path)) >>= fun _ => pure ds.length).run.run c = _
  exact run_map_of_run (f := fun _ => ds.length) (run_forM_registerIn ds c)

theorem registerListed_append (path : FilePath) (listed : List RecipeDefinition × Option Error)
    {ds : List RecipeDefinition} (registered : registerAll (some path) ds c = (.ok (), c')) :
    registerListed path (ds ++ listed.1, listed.2) c =
      ((registerListed path listed c').1.map (ds.length + ·), (registerListed path listed c').2) := by
  unfold registerListed
  dsimp only
  rw [registerAll_append, registered]
  dsimp only
  obtain ⟨more, fault⟩ := listed
  obtain ⟨result, c''⟩ := registerAll (some path) more c'
  cases result with
  | error e => rfl
  | ok _ =>
    cases fault with
    | some e => rfl
    | none =>
      rw [List.length_append]
      rfl

theorem run_mapM_loadDocument (path : FilePath) (documents : List Json) (c : Catalogue) :
    (total <$> documents.mapM (loadDocument path)).run.run c =
      registerListed path (RecipeDefinition.listing path documents) c := by
  induction documents generalizing c with
  | nil => rfl
  | cons document documents ih =>
    rw [List.mapM_cons, map_bind, RecipeDefinition.listing]
    cases valid : RecipeDefinition.ofDocument path document with
    | error e =>
      have one : (loadDocument path document).run.run c = (.error e, c) := by
        rw [loadDocument, valid]
        rfl
      exact run_bind_of_error one
    | ok ds =>
      have one := run_loadDocument valid c
      cases registered : registerAll (some path) ds c with
      | mk result c' =>
        rw [registered] at one
        cases result with
        | error e =>
          rw [run_bind_of_error one, registerListed, registerAll_append, registered]
        | ok _ =>
          rw [run_bind_of_ok one, registerListed_append path _ registered, ← ih, map_bind]
          -- The counts are only summed up behind the last document, which is put off here document by document.
          have counted : (documents.mapM (loadDocument path) >>= fun counts => total <$> pure (ds.length :: counts)) =
              (ds.length + ·) <$> total <$> documents.mapM (loadDocument path) := by
            simp only [map_eq_pure_bind, bind_assoc, pure_bind, total_cons]
          rw [counted]
          exact run_map_of_run rfl

/-- The file can be read, and lists these definitions up to what is wrong with it. -/
def Lists (t : FileTree) (path : FilePath) (ds : List RecipeDefinition) (fault : Option Error) : Prop :=
  ∃ documents, (do RecipeDefinition.documentsOf path (← t.read path)) = Except.ok documents ∧
    RecipeDefinition.listing path documents = (ds, fault)

theorem run_loadFile_of_lists {t : FileTree} {path : FilePath} {fault : Option Error} (h : Lists t path ds fault)
    (c : Catalogue) : (loadFile t path).run.run c = registerListed path (ds, fault) c := by
  obtain ⟨documents, read, listed⟩ := h
  obtain ⟨text, hread, parsed⟩ := bind_eq_ok.1 read
  rw [loadFile, hread, ← listed, ← run_mapM_loadDocument]
  change ((liftExcept (RecipeDefinition.documentsOf path text) : Loading _) >>= _).run.run c = _
  rw [parsed]
  change ((documents.mapM (loadDocument path)) >>= fun counts => pure (total counts)).run.run c = _
  rw [map_eq_pure_bind]

theorem run_loadFile_of_error {t : FileTree} {path : FilePath} {e : Error}
    (h : (do RecipeDefinition.documentsOf path (← t.read path)) = Except.error e) (c : Catalogue) :
    (loadFile t path).run.run c = (.error e, c) := by
  rw [loadFile]
  cases hread : t.read path with
  | error e' =>
    rw [hread] at h
    cases h
    rfl
  | ok text =>
    rw [hread] at h
    replace h : RecipeDefinition.documentsOf path text = .error e := h
    change ((liftExcept (RecipeDefinition.documentsOf path text) : Loading _) >>= _).run.run c = _
    rw [h]
    rfl

theorem Lists.unique {t : FileTree} {path : FilePath} {ds ds' : List RecipeDefinition} {fault fault' : Option Error}
    (h : Lists t path ds fault) (h' : Lists t path ds' fault') : ds = ds' ∧ fault = fault' := by
  obtain ⟨documents, read, listed⟩ := h
  obtain ⟨documents', read', listed'⟩ := h'
  cases read.symm.trans read'
  exact Prod.mk.inj (listed.symm.trans listed')

/-- No name is there twice, that of a built-in recipe included, and none is empty. -/
def Lawful (c : Catalogue) : Prop := c.names.Nodup ∧ "" ∉ c.names

theorem lawful_empty : Lawful {} := by
  unfold Lawful
  decide +kernel

theorem Free.not_mem_names {name : String} (h : c.Free name) : name ∉ c.names := by
  intro found
  obtain own | declared := List.mem_append.1 found
  · have builtin := List.contains_iff_mem.2 own
    rw [← Recipes.isBuiltin, h.own] at builtin
    cases builtin
  · exact SortedMap.not_mem_keys h.new declared

theorem Adds.lawful (h : Adds c origin ds c') (lawful : c.Lawful) : c'.Lawful := by
  constructor
  · rw [h.names.nodup_iff, List.nodup_append]
    refine ⟨lawful.1, h.distinct, ?_⟩
    rintro name old _ new rfl
    obtain ⟨d, hd, rfl⟩ := List.mem_map.1 new
    exact (h.free d hd).not_mem_names old
  · intro found
    obtain old | new := List.mem_append.1 (h.names.mem_iff.1 found)
    · exact lawful.2 old
    · obtain ⟨d, hd, he⟩ := List.mem_map.1 new
      exact (h.free d hd).nonempty he

/-- What a load adds, and when. It succeeds exactly if the file lists definitions without a fault and each has a free
name of its own; then these and no others are added, and their number is the answer. When it fails, the definitions at
the front of the list may have been added: the catalogue is what it was exactly if not even the first one could be. -/
theorem loadFile_adds (t : FileTree) (path : FilePath) (c : Catalogue) :
    (∀ n, ((loadFile t path).run.run c).1 = .ok n →
      ∃ ds, Lists t path ds none ∧ ds.length = n ∧ Adds c (some path) ds ((loadFile t path).run.run c).2) ∧
    ((∃ n, ((loadFile t path).run.run c).1 = .ok n) ↔
      ∃ ds, Lists t path ds none ∧ (ds.map (·.key)).Nodup ∧ ∀ d ∈ ds, c.Free d.key) ∧
    (∀ e, ((loadFile t path).run.run c).1 = .error e →
      (∃ done, Adds c (some path) done ((loadFile t path).run.run c).2 ∧
        ∀ ds fault, Lists t path ds fault → done <+: ds) ∧
      (((loadFile t path).run.run c).2 = c ↔ ∀ d ds fault, Lists t path (d :: ds) fault → ¬c.Free d.key)) ∧
    (c.Lawful → ((loadFile t path).run.run c).2.Lawful) := by
  cases read : (do RecipeDefinition.documentsOf path (← t.read path)) with
  | error e =>
    have unlisted (ds : List RecipeDefinition) (fault : Option Error) : ¬Lists t path ds fault := by
      rintro ⟨documents, read', -⟩
      cases read.symm.trans read'
    rw [run_loadFile_of_error read]
    refine ⟨nofun, iff_of_false nofun fun ⟨ds, lists, _⟩ => unlisted _ _ lists, fun e' he => ⟨?_, ?_⟩, id⟩
    · exact ⟨[], .nil, fun ds fault lists => absurd lists (unlisted ds fault)⟩
    · exact iff_of_true rfl fun d ds fault lists => absurd lists (unlisted _ _)
  | ok documents =>
    obtain ⟨ds, fault, lists⟩ : ∃ ds fault, Lists t path ds fault := ⟨_, _, documents, read, rfl⟩
    obtain ⟨done, rest, split, adds, registered⟩ := exists_adds_registerAll (some path) ds c
    have all (n : Nat) : ((loadFile t path).run.run c).1 = .ok n ↔ rest = [] ∧ fault = none ∧ ds.length = n := by
      rw [run_loadFile_of_lists lists, registerListed_fst_eq_ok_iff, registered]
    have after : ((loadFile t path).run.run c).2 = (registerAll (some path) ds c).2 := by
      rw [run_loadFile_of_lists lists, registerListed_snd]
    rw [← after] at adds
    refine ⟨fun n loaded => ?_, ⟨?_, ?_⟩, fun e failed => ⟨⟨done, adds, ?_⟩, ?_⟩, adds.lawful⟩
    · obtain ⟨rfl, rfl, rfl⟩ := (all n).1 loaded
      rw [List.append_nil] at split
      subst split
      exact ⟨ds, lists, rfl, adds⟩
    · rintro ⟨n, loaded⟩
      obtain ⟨rfl, rfl, rfl⟩ := (all n).1 loaded
      rw [List.append_nil] at split
      subst split
      exact ⟨ds, lists, adds.distinct, adds.free⟩
    · rintro ⟨ds', lists', distinct, free⟩
      obtain ⟨rfl, rfl⟩ := lists.unique lists'
      exact ⟨_, (all _).2 ⟨registered.1 (registerAll_eq_ok_of_free distinct free), rfl, rfl⟩⟩
    · intro ds' fault' lists'
      obtain ⟨rfl, -⟩ := lists.unique lists'
      exact ⟨rest, split.symm⟩
    · rw [after, registerAll_snd_eq_self_iff]
      constructor
      · intro taken d ds' fault' lists'
        obtain ⟨rfl, -⟩ := lists.unique lists'
        exact taken d rfl
      · intro taken d first
        obtain ⟨tail, rfl⟩ := List.head?_eq_some_iff.1 first
        exact taken d tail fault lists

/-- A JSON file with these definitions. -/
theorem lists_of_written {t : FileTree} {path : FilePath} {names : List String} {j : Json} (plain : j.Plain)
    (file : t.file path = .ok (names, j.print.toUTF8)) (format : FileFormat.ofPath? path = some .json)
    (flat : j.nesting ≤ RecipeDefinition.maxNesting) (merged : j.merged = j)
    (valid : RecipeDefinition.ofDocument path j = .ok ds) : Lists t path ds none := by
  have documents : RecipeDefinition.documentsOf path j.print = .ok [j] := by
    have fits : (decide (RecipeDefinition.maxNesting < j.nesting) || !j.inRange) = false := by
      rw [decide_eq_false (Nat.not_lt.2 flat), Json.Plain.inRange j plain]
      rfl
    rw [RecipeDefinition.documentsOf, format]
    dsimp only
    rw [RecipeDefinition.documents?, Json.parse?_of_writes (Json.writes_print j plain)]
    dsimp only [Option.bind_eq_bind, Option.bind_some]
    rw [fits, merged]
    rfl
  refine ⟨[j], bind_eq_ok.2 ⟨_, FileTree.read_of_text file, documents⟩, ?_⟩
  rw [RecipeDefinition.listing, valid]
  exact congrArg (·, none) (List.append_nil ds)

def declaring (first second : String) : FileTree where
  files := [(["r.json"],
    (Json.array [.object [("name", .string first)], .object [("name", .string second)]]).print.toUTF8)]

theorem lists_declaring (first second : String) :
    Lists (declaring first second) ⟨"r.json"⟩ [{ name := first }, { name := second }] none :=
  lists_of_written (by simp) rfl rfl (show 2 ≤ 127 by decide) rfl rfl

theorem loadFile_adds_two :
    ((loadFile (declaring "a" "b") ⟨"r.json"⟩).run.run {}).1 = .ok 2 ∧
      Adds {} (some ⟨"r.json"⟩) [{ name := "a" }, { name := "b" }]
        ((loadFile (declaring "a" "b") ⟨"r.json"⟩).run.run {}).2 ∧
      ((loadFile (declaring "a" "b") ⟨"r.json"⟩).run.run {}).2.Lawful := by
  have lists := lists_declaring "a" "b"
  have free : ∀ d ∈ [{ name := "a" }, ({ name := "b" } : RecipeDefinition)], Free {} d.key := by
    intro d hd
    obtain rfl | hd := List.mem_cons.1 hd
    · exact ⟨by decide, by decide, rfl⟩
    · obtain rfl := List.mem_singleton.1 hd
      exact ⟨by decide, by decide, rfl⟩
  obtain ⟨all, succeeds, -, lawful⟩ := loadFile_adds (declaring "a" "b") ⟨"r.json"⟩ {}
  obtain ⟨n, loaded⟩ := succeeds.2 ⟨_, lists, by decide, free⟩
  obtain ⟨ds, lists', rfl, adds⟩ := all n loaded
  obtain ⟨rfl, -⟩ := lists.unique lists'
  exact ⟨loaded, adds, lawful lawful_empty⟩

/-- A name that comes again in the file is refused, and the first recipe of that name stays. -/
theorem loadFile_stops_behind_first :
    (∃ e, ((loadFile (declaring "a" "a") ⟨"r.json"⟩).run.run {}).1 = .error e) ∧
      ({} : Catalogue).contains "a" = false ∧
      ((loadFile (declaring "a" "a") ⟨"r.json"⟩).run.run {}).2.contains "a" = true := by
  rw [run_loadFile_of_lists (lists_declaring "a" "a")]
  exact ⟨⟨_, rfl⟩, by decide, by decide⟩

end Catalogue
end Emend
