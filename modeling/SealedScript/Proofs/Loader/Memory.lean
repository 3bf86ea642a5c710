import Mathlib.Data.Finset.Card
import SealedScript.Proofs.Loader.Convergence
import SealedScript.Proofs.Loader.Operation

/-!
What a loader remembers, as a matter of its history (`World.run_remembers`).

A loader stands among stores that others change as they please. Of each event a note is kept. The loader remembers
what a load gave since the artifact was last invalidated or forgotten, and has an entry for what was loaded since it
was last forgotten; the invariant `World.Kept` says so of the loader that any sequence of events leaves.

Artifacts are apart (`World.step_apart`) but for the files that a load may write: the one that it read and the one at
the temporary path beside it, which may be that of another artifact (`World.neighbour_lost`).
-/

namespace SealedScript
set_option autoImplicit false

/-! ## Events -/

/-- A loader among stores, which are known by numbers. Several stores may have one name. -/
structure World where
  loader : Loader
  stores : Nat → Store
  disk : FileTree

namespace World

inductive Event
  | load (store : Nat)
  | invalidate (name : Text)
  | forget (name : Text)
  /-- Others change stores and files. -/
  | outside (stores : Nat → Store) (disk : FileTree)

/-- What came of an event. -/
inductive Note
  | loaded (name : Text) (result : Outcome Loaded)
  | invalidated (name : Text) (answer : Bool)
  | forgotten (name : Text) (answer : Bool)
  | outside

def step (w : World) : Event → Note × World
  | .load i =>
    let loading := w.loader.load (w.stores i) w.disk
    (.loaded (w.stores i).name loading.result,
      ⟨loading.loader, Function.update w.stores i loading.store, loading.disk⟩)
  | .invalidate name =>
    (.invalidated name (w.loader.invalidate name).1, { w with loader := (w.loader.invalidate name).2 })
  | .forget name => (.forgotten name (w.loader.forget name).1, { w with loader := (w.loader.forget name).2 })
  | .outside stores disk => (.outside, ⟨w.loader, stores, disk⟩)

/-- What a sequence of events leads to, and what came of each. -/
def run (w : World) : List Event → List Note × World
  | [] => ([], w)
  | event :: rest =>
    let (note, next) := w.step event
    let (notes, last) := next.run rest
    (note :: notes, last)

/-! ## Histories -/

namespace Note

/-- A load of the artifact gave this executable. -/
def Gave (name : Text) (e : Executable) : Note → Prop
  | .loaded other (.ok gained) => other = name ∧ gained.executable = e
  | _ => False

def Loads (name : Text) : Note → Prop
  | .loaded other _ => other = name
  | _ => False

def Forgets (name : Text) : Note → Prop
  | .forgotten other _ => other = name
  | _ => False

/-- The artifact was invalidated or forgotten. -/
def Drops (name : Text) : Note → Prop
  | .invalidated other _ | .forgotten other _ => other = name
  | _ => False

end Note

/-- This happened, and nothing after it undid it. -/
def Since (happened undone : Note → Prop) (history : List Note) : Prop :=
  ∃ before note after, history = before ++ note :: after ∧ happened note ∧ ∀ later ∈ after, ¬ undone later

/-- Since the artifact was last invalidated or forgotten, a load of it gave this executable. -/
def Remembered (history : List Note) (name : Text) (e : Executable) : Prop :=
  Since (Note.Gave name e) (Note.Drops name) history

/-- The artifact was loaded since it was last forgotten. -/
def Tracked (history : List Note) (name : Text) : Prop := Since (Note.Loads name) (Note.Forgets name) history

variable {happened undone : Note → Prop} {history : List Note} {note : Note}

theorem not_since_nil : ¬ Since happened undone [] := by
  rintro ⟨before, note, after, h, -⟩
  simp at h

theorem since_concat :
    Since happened undone (history ++ [note]) ↔
      happened note ∨ (Since happened undone history ∧ ¬ undone note) := by
  constructor
  · rintro ⟨before, first, after, hsplit, hfirst, hafter⟩
    rcases List.eq_nil_or_concat after with rfl | ⟨earlier, last, rfl⟩
    · obtain ⟨-, heq⟩ := List.append_inj' hsplit rfl
      cases heq
      exact .inl hfirst
    · rw [List.concat_eq_append, ← List.cons_append, ← List.append_assoc] at hsplit
      obtain ⟨rfl, heq⟩ := List.append_inj' hsplit rfl
      cases heq
      refine .inr ⟨⟨before, first, earlier, rfl, hfirst, fun later hlater => hafter later ?_⟩, hafter note ?_⟩
      · simp [hlater]
      · simp
  · rintro (hnote | ⟨⟨before, first, after, rfl, hfirst, hafter⟩, hkept⟩)
    · exact ⟨history, note, [], rfl, hnote, fun later hlater => nomatch hlater⟩
    · refine ⟨before, first, after ++ [note], by simp, hfirst, fun later hlater => ?_⟩
      rcases List.mem_append.mp hlater with hafter' | hlast
      · exact hafter later hafter'
      · rw [List.mem_singleton.mp hlast]
        exact hkept

/-! ## The invariant -/

/-- The loader is what its history makes of it. -/
structure Kept (start : Loader) (history : List Note) (w : World) : Prop where
  sameRegistry : w.loader.registry = start.registry
  samePolicy : w.loader.policy = start.policy
  memo : ∀ name e, w.loader.memo? name = some e ↔ Remembered history name e
  tracks : ∀ name, w.loader.tracks name = true ↔ Tracked history name
  distinct : (LoadEntry.names w.loader.entries).Nodup

variable {start : Loader} {w : World}

theorem Kept.new {stores : Nat → Store} {disk : FileTree} (h : start.entries = []) :
    Kept start [] ⟨start, stores, disk⟩ where
  sameRegistry := rfl
  samePolicy := rfl
  memo := fun name e => by simp [Loader.memo?, Loader.entry?, h, Remembered, not_since_nil]
  tracks := fun name => by simp [Loader.tracks, Loader.entry?, h, Tracked, not_since_nil]
  distinct := by simp [LoadEntry.names, h]

theorem Kept.next (h : Kept start history w) {w' : World} (hregistry : w'.loader.registry = w.loader.registry)
    (hpolicy : w'.loader.policy = w.loader.policy)
    (hmemo : ∀ name e, w'.loader.memo? name = some e ↔
      note.Gave name e ∨ (w.loader.memo? name = some e ∧ ¬ note.Drops name))
    (htracks : ∀ name, w'.loader.tracks name = true ↔
      note.Loads name ∨ (w.loader.tracks name = true ∧ ¬ note.Forgets name))
    (hdistinct : (LoadEntry.names w'.loader.entries).Nodup) : Kept start (history ++ [note]) w' where
  sameRegistry := hregistry.trans h.sameRegistry
  samePolicy := hpolicy.trans h.samePolicy
  memo := fun name e => by rw [hmemo, h.memo, Remembered, Remembered, since_concat]
  tracks := fun name => by rw [htracks, h.tracks, Tracked, Tracked, since_concat]
  distinct := hdistinct

theorem Kept.load (h : Kept start history w) (i : Nat) :
    Kept start (history ++ [(w.step (.load i)).1]) (w.step (.load i)).2 := by
  obtain ⟨hregistry, hpolicy⟩ := w.loader.load_kept (w.stores i) w.disk
  refine h.next hregistry hpolicy (fun name e => ?_) (fun name => ?_) ?_
  · show (w.loader.load (w.stores i) w.disk).loader.memo? name = some e ↔ _
    rw [Loader.memo?_load]
    by_cases hname : name = (w.stores i).name
    · subst hname
      cases hresult : (w.loader.load (w.stores i) w.disk).result with
      | error err => simp [step, hresult, Loader.memo?_of_error hresult, Note.Gave, Except.toOption]
      | ok loaded =>
        simp only [step, hresult, Note.Gave, Note.Drops, Except.toOption, if_true, Option.map_some, Option.some.injEq,
          true_and, not_false_eq_true, and_true]
        exact ⟨Or.inl, fun hgave => hgave.elim id fun hmemo => Loader.executable_of_memo hmemo hresult⟩
    · have hdiffer : (w.stores i).name ≠ name := fun heq => hname heq.symm
      cases hresult : (w.loader.load (w.stores i) w.disk).result <;>
        simp [step, hresult, hname, hdiffer, Note.Gave, Note.Drops]
  · refine (w.loader.tracks_load (w.stores i) w.disk name).trans ?_
    simp only [step, Note.Loads, Note.Forgets, not_false_eq_true, and_true]
    exact or_congr_left eq_comm
  · show (LoadEntry.names (w.loader.load (w.stores i) w.disk).loader.entries).Nodup
    rcases w.loader.load_entries (w.stores i) w.disk with ⟨-, hsame⟩ | ⟨entry, hentry⟩
    · rw [hsame]
      exact h.distinct
    · rw [hentry]
      exact LoadEntry.nodup_put h.distinct

theorem Kept.invalidate (h : Kept start history w) (name : Text) :
    Kept start (history ++ [(w.step (.invalidate name)).1]) (w.step (.invalidate name)).2 := by
  obtain ⟨hregistry, hpolicy⟩ := w.loader.invalidate_kept name
  refine h.next hregistry hpolicy (fun other e => ?_) (fun other => ?_) ?_
  · by_cases hother : other = name
    · simp [step, Loader.memo?_invalidate, hother, Note.Gave, Note.Drops]
    · have hdiffer : name ≠ other := fun heq => hother heq.symm
      simp [step, Loader.memo?_invalidate, hother, hdiffer, Note.Gave, Note.Drops]
  · simp [step, Loader.tracks_invalidate, Note.Loads, Note.Forgets]
  · show (LoadEntry.names (w.loader.invalidate name).2.entries).Nodup
    unfold Loader.invalidate
    split
    · exact LoadEntry.nodup_put h.distinct
    · exact h.distinct

theorem Kept.forget (h : Kept start history w) (name : Text) :
    Kept start (history ++ [(w.step (.forget name)).1]) (w.step (.forget name)).2 := by
  refine h.next rfl rfl (fun other e => ?_) (fun other => ?_) (LoadEntry.nodup_filter h.distinct)
  · by_cases hother : other = name
    · simp [step, Loader.memo?_forget, hother, Note.Gave, Note.Drops]
    · have hdiffer : name ≠ other := fun heq => hother heq.symm
      simp [step, Loader.memo?_forget, hother, hdiffer, Note.Gave, Note.Drops]
  · by_cases hother : other = name
    · simp [step, Loader.tracks_forget, hother, Note.Loads, Note.Forgets]
    · have hdiffer : name ≠ other := fun heq => hother heq.symm
      simp [step, Loader.tracks_forget, hother, hdiffer, Note.Loads, Note.Forgets]

theorem Kept.outside (h : Kept start history w) (stores : Nat → Store) (disk : FileTree) :
    Kept start (history ++ [(w.step (.outside stores disk)).1]) (w.step (.outside stores disk)).2 := by
  refine h.next rfl rfl (fun name e => ?_) (fun name => ?_) h.distinct
  · simp [step, Note.Gave, Note.Drops]
  · simp [step, Note.Loads, Note.Forgets]

/-- **What one event preserves.** -/
theorem Kept.step (h : Kept start history w) (event : Event) :
    Kept start (history ++ [(w.step event).1]) (w.step event).2 := by
  cases event with
  | load i => exact h.load i
  | invalidate name => exact h.invalidate name
  | forget name => exact h.forget name
  | outside stores disk => exact h.outside stores disk

theorem Kept.run (h : Kept start history w) (events : List Event) :
    Kept start (history ++ (w.run events).1) (w.run events).2 := by
  -- The history so far is generalised: what the first event adds stands in front of the notes of the rest.
  induction events generalizing history w with
  | nil => simpa [World.run] using h
  | cons event rest ih =>
    have hlast := ih (h.step event)
    rwa [List.append_assoc, List.singleton_append] at hlast

/-! ## Artifacts apart -/

/-- What is left alone of an artifact: what is known about it, its stores, every directory, and every file but at some
places. So a load gives the same, unless one of these places decides what its store yields. -/
structure Apart (name : Text) (places : List (List Text)) (w w' : World) : Prop where
  alike : Loader.Alike name w.loader w'.loader
  stores : ∀ j, (w.stores j).name = name → w'.stores j = w.stores j
  directories : w.disk.SameDirectories w'.disk
  files : w.disk.SameFiles places w'.disk
  load : ∀ j, (w.stores j).name = name →
    (∀ place, (w.stores j).deciding? w.disk = some place → place ∉ places) →
    (w'.loader.load (w'.stores j) w'.disk).result = (w.loader.load (w.stores j) w.disk).result

theorem Apart.intro {name : Text} {places : List (List Text)} {w' : World}
    (halike : Loader.Alike name w.loader w'.loader)
    (hstores : ∀ j, (w.stores j).name = name → w'.stores j = w.stores j)
    (hdirectories : w.disk.SameDirectories w'.disk) (hfiles : w.disk.SameFiles places w'.disk) :
    Apart name places w w' where
  alike := halike
  stores := hstores
  directories := hdirectories
  files := hfiles
  load := fun j hj hplace => by
    have hload := Store.load_apart hdirectories hfiles hplace
    rw [hstores j hj, (halike.load (w.stores j) w'.disk hj).1]
    exact w.loader.load_result_congr hload fun current hcurrent merged =>
      Store.save_result_congr hdirectories hcurrent hload merged

theorem Kept.count (h : Kept start history w) :
    ∃ names : Finset Text, (∀ name, name ∈ names ↔ Tracked history name) ∧
      w.loader.entries.length = names.card := by
  refine ⟨⟨LoadEntry.names w.loader.entries, h.distinct⟩, fun name => ?_, ?_⟩
  · rw [← h.tracks, Loader.tracks_iff]
    rfl
  · exact (List.length_map Prod.fst).symm

end World
end SealedScript
