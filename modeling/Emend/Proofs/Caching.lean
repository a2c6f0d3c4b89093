import Emend.Proofs.Pom

/-! # Summaries through the cache

However visitors use the context of a run, a summary from its cache is the summary of the document that was asked for.
Only values of other types can be stored by others, and any key may be used again for another document.
-/

namespace Emend

def Slot.Foreign {α : Type} (slot : Slot α) : Prop := ∀ a, Slot.pom.unwrap? (slot.wrap a) = none

theorem Slot.foreign_text : Slot.text.Foreign := fun _ => rfl

namespace Cache

variable {c : Cache}

theorem lookup_erase_self (c : Cache) (key : String) : (c.erase key).entries.lookup key = none := by
  rw [List.lookup_eq_none_iff]
  intro entry h
  have kept : entry.1 ≠ key := by simpa using (List.mem_filter.1 h).2
  exact bne_iff_ne.2 (Ne.symm kept)

theorem Truthful.erase (h : c.Truthful) (key : String) : (c.erase key).Truthful := by
  intro key' d summary found
  apply h key' d summary
  by_cases same : key' = key
  · rw [same, get?, lookup_erase_self] at found
    cases found
  · rwa [get?, lookup_erase_of_ne c same] at found

theorem Truthful.insert_foreign {α : Type} (h : c.Truthful) {slot : Slot α} (foreign : slot.Foreign) (key : String)
    (a : α) : (c.insert slot key a).Truthful := by
  intro key' d summary found
  by_cases same : key' = key
  · rw [same, Cache.insert, get?, List.lookup_cons_self, Option.bind_some, foreign a] at found
    cases found
  · rw [get?_insert_of_ne c slot .pom same] at found
    exact h key' d summary found

theorem Truthful.getOrInsert {α : Type} (h : c.Truthful) {slot : Slot α} (foreign : slot.Foreign) (key : String)
    (a : α) : (c.getOrInsert slot key a).2.Truthful := by
  unfold Cache.getOrInsert
  split
  · exact h
  · exact h.insert_foreign foreign key a

end Cache

/-- What is done with a context: a document is summarized, values of other types are stored and removed, or the cache
is left alone. -/
inductive Use : Type 1 where
  | summarize (d : Markup.Document)
  | insert {α : Type} (slot : Slot α) (foreign : slot.Foreign) (key : String) (a : α)
  | getOrInsert {α : Type} (slot : Slot α) (foreign : slot.Foreign) (key : String) (a : α)
  | erase (key : String)
  | elsewhere (f : Context → Context) (kept : ∀ c, (f c).cache = c.cache)

namespace Use

def apply (c : Context) : Use → Context
  | summarize d => { c with cache := (Pom.cached d c.cache).2 }
  | insert slot _ key a => { c with cache := c.cache.insert slot key a }
  | getOrInsert slot _ key a => { c with cache := (c.cache.getOrInsert slot key a).2 }
  | erase key => { c with cache := c.cache.erase key }
  | elsewhere f _ => f c

def document? : Use → Option Markup.Document
  | summarize d => some d
  | _ => none

end Use

/-- What a context answers to the uses that ask for a summary, one after another. -/
def Context.summaries : Context → List Use → List (Option Pom)
  | _, [] => []
  | c, use :: uses =>
    let later := (use.apply c).summaries uses
    match use.document? with
    | some d => (Pom.cached d c.cache).1.1 :: later
    | none => later

theorem Use.truthful_apply {c : Context} (h : c.cache.Truthful) (use : Use) : (use.apply c).cache.Truthful := by
  cases use with
  | summarize d => exact (Pom.cached_of_truthful h d).2
  | insert slot foreign key a => exact h.insert_foreign foreign key a
  | getOrInsert slot foreign key a => exact h.getOrInsert foreign key a
  | erase key => exact h.erase key
  | elsewhere f kept =>
    rw [apply, kept]
    exact h

theorem Context.summaries_of_truthful {c : Context} (h : c.cache.Truthful) (uses : List Use) :
    c.summaries uses = (uses.filterMap Use.document?).map Pom.ofDocument? := by
  induction uses generalizing c with
  | nil => rfl
  | cons use uses ih =>
    rw [summaries, ih (use.truthful_apply h)]
    cases asked : use.document? with
    | none => rw [List.filterMap_cons_none asked]
    | some d =>
      rw [List.filterMap_cons_some asked, List.map_cons]
      exact congrArg (· :: _) (Pom.cached_of_truthful h d).1

/-- In a new context every summary is the one of its document, whatever else is done in between. -/
theorem Context.summaries_transparent (uses : List Use) :
    Context.summaries {} uses = (uses.filterMap Use.document?).map Pom.ofDocument? :=
  summaries_of_truthful Cache.truthful_empty uses

/-- A text stored under the key of a document does not get into its summary. -/
example (d : Markup.Document) :
    Context.summaries {} [.summarize d, .insert .text Slot.foreign_text (Pom.cacheKey d) "stale", .summarize d] =
      [Pom.ofDocument? d, Pom.ofDocument? d] :=
  Context.summaries_of_truthful Cache.truthful_empty _

end Emend
