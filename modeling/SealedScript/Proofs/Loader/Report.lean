import SealedScript.Proofs.Loader.Convergence
import SealedScript.Proofs.Loader.Operation

/-!
Reports say what a load did (`Loader.load_reports`).

Whether a store can be saved to makes no difference to what is loaded from it. A report tells of the store as the
load leaves it: `Truthful` is shown for every store that a failed save leaves with its text, and memory stores are of
that kind.
-/

namespace SealedScript
set_option autoImplicit false

open Artifact (extract merge pad)

variable {l : Loader} {store : Store} {disk : FileTree} {name text : Text}

namespace Loader

/-! ## Artifacts that may not be compiled -/

theorem options_unpermitted (h : l.policy.recompile = false) : l.options = ⟨false, false⟩ := by
  have hforce : l.policy.forceRecompile = false := by
    have hconsistent := l.policy_consistent
    rwa [Policy.isContradictory, h, Bool.not_false, Bool.and_true] at hconsistent
  rw [options, h, hforce]

theorem readStore_refused {err : Failure} (hload : store.load disk = .ok text)
    (h : Artifact.resolve l.registry store.name text l.options = .error err) : l.readStore store disk = .error err := by
  rw [readStore, hload]
  show (Artifact.resolve l.registry store.name text l.options >>= _) = _
  rw [h]
  rfl

theorem readStore_stale {x : Artifact.Resolved} (hload : store.load disk = .ok text)
    (h : Artifact.resolve l.registry store.name text l.options = .ok x) (hnone : x.executable = none) :
    l.readStore store disk = .error (.stale store.name x.validation) := by
  obtain ⟨executable, code, validation, rebuilt⟩ := x
  cases hnone
  rw [readStore, hload]
  show (Artifact.resolve l.registry store.name text l.options >>= _) = _
  rw [h]
  rfl

/-- Without leave to compile, a store gives the executable of a fresh artifact, or the caller is told to allow
compiling. -/
theorem readStore_unpermitted (h : l.policy.recompile = false) (hload : store.load disk = .ok text) :
    (∃ x e, l.readStore store disk = .ok (text, x, e) ∧ x.rebuilt = false ∧
        (extract l.registry text).validation = .fresh) ∨
      ∃ err, l.readStore store disk = .error err ∧ err.isRepairable = true ∧
        (extract l.registry text).validation ≠ .fresh := by
  obtain ⟨hfresh, hspoilt⟩ := Artifact.resolve_unpermitted l.registry store.name text
  rw [← options_unpermitted h] at hfresh hspoilt
  rcases Artifact.extract_cases l.registry text with ⟨code, e, hextract⟩ | ⟨hnot, hnone⟩
  · have hexecutable : (extract l.registry text).executable = some e := by rw [hextract]
    exact .inl ⟨_, e, readStore_eq_ok.mpr ⟨hload, hfresh e hexecutable, rfl⟩, rfl, by rw [hextract]⟩
  · rcases hspoilt hnone with ⟨fault, hfault⟩ | hstale
    · exact .inr ⟨_, readStore_refused hload hfault, rfl, hnot⟩
    · exact .inr ⟨_, readStore_stale hload hstale rfl, rfl, hnot⟩

theorem loadStore_unpermitted (h : l.policy.recompile = false) (hload : store.load disk = .ok text) :
    ((∃ loaded, (l.loadStore store disk).result = .ok loaded) ↔ (extract l.registry text).validation = .fresh) ∧
      ∀ err, (l.loadStore store disk).result = .error err → err.isRepairable = true := by
  rcases readStore_unpermitted h hload with ⟨x, e, hread, -, hfresh⟩ | ⟨err, hread, hrepairable, hspoilt⟩
  · rw [loadStore_eq hread]
    exact ⟨⟨fun _ => hfresh, fun _ => ⟨_, rfl⟩⟩, fun err herr => nomatch herr⟩
  · rw [loadStore, hread]
    refine ⟨⟨?_, fun hfresh => absurd hfresh hspoilt⟩, fun err' herr => ?_⟩
    · rintro ⟨loaded, hloaded⟩
      cases hloaded
    · cases herr
      exact hrepairable

/-- **Without leave to compile nothing is ever written.** -/
theorem load_unpermitted (h : l.policy.recompile = false) (store : Store) (disk : FileTree) :
    (l.load store disk).store = store ∧ (l.load store disk).disk = disk := by
  cases hmemo : l.memo? store.name with
  | some e =>
    rw [load_memoized hmemo]
    exact ⟨rfl, rfl⟩
  | none =>
    rw [load_unremembered hmemo]
    cases hread : l.readStore store disk with
    | error err =>
      rw [loadStore, hread]
      exact ⟨rfl, rfl⟩
    | ok parts =>
      obtain ⟨text, x, e⟩ := parts
      obtain ⟨hload, -, -⟩ := readStore_eq_ok.mp hread
      have hrebuilt : x.rebuilt = false := by
        rcases readStore_unpermitted h hload with ⟨x', e', hread', hrebuilt, -⟩ | ⟨err, herr, -⟩
        · rw [hread, Except.ok.injEq, Prod.mk.injEq, Prod.mk.injEq] at hread'
          rwa [hread'.2.1]
        · rw [hread] at herr
          cases herr
      rw [loadStore_eq hread, backOf_same l fun hanew => absurd (hrebuilt.symm.trans hanew) Bool.false_ne_true]
      exact ⟨rfl, rfl⟩

/-! ## What is written back -/

theorem backOf_cases (l : Loader) (store : Store) (disk : FileTree) (text : Text) (x : Artifact.Resolved)
    (e : Executable) :
    ∃ merged, merge x.code e = .ok merged ∧
      ((¬ (x.rebuilt = true ∧ l.policy.writeBack = true ∧ merged ≠ text) ∧
          l.backOf store disk text x e = (.unneeded, store, disk)) ∨
        (x.rebuilt = true ∧ l.policy.writeBack = true ∧ merged ≠ text) ∧
          (((store.save disk merged).result = .ok () ∧ l.backOf store disk text x e =
              (.written merged, (store.save disk merged).store, (store.save disk merged).disk)) ∨
            ∃ err, (store.save disk merged).result = .error err ∧ l.backOf store disk text x e =
              (.failed err, (store.save disk merged).store, (store.save disk merged).disk))) := by
  obtain ⟨merged, hmerge⟩ := Artifact.merge_total x.code e
  refine ⟨merged, hmerge, ?_⟩
  by_cases hwrites : x.rebuilt = true ∧ l.policy.writeBack = true
  · have hback : l.backOf store disk text x e = writeBack store disk text x.code e := by
      rw [backOf, hwrites.1, hwrites.2]
      rfl
    rw [hback]
    by_cases hsame : merged = text
    · subst hsame
      exact .inl ⟨fun h => h.2.2 rfl, writeBack_same hmerge⟩
    · refine .inr ⟨⟨hwrites.1, hwrites.2, hsame⟩, ?_⟩
      cases hsave : (store.save disk merged).result with
      | ok done => exact .inl ⟨rfl, writeBack_saved hmerge hsame hsave⟩
      | error err =>
        refine .inr ⟨err, rfl, ?_⟩
        rw [writeBack, hmerge]
        simp only [if_neg hsame, hsave]
  · refine .inl ⟨fun h => hwrites ⟨h.1, h.2.1⟩, ?_⟩
    rw [backOf, if_neg]
    rwa [Bool.and_eq_true]

/-- The load compiled the artifact to another text, which was saved with this result. -/
def Saved (l : Loader) (store : Store) (disk : FileTree) (before : Text) (loaded : Loaded) (result : Outcome Unit) :
    Prop :=
  l.policy.writeBack = true ∧ (∃ found, loaded.outcome = .rebuilt found) ∧
    ∃ merged, merge (pad (extract l.registry before).code) loaded.executable = .ok merged ∧ merged ≠ before ∧
      (store.save disk merged).result = result

/-- The report is right about a load that found one text in the store and left another, or the same. -/
structure Truthful (l : Loader) (store : Store) (disk : FileTree) (before after : Text) (loaded : Loaded) : Prop where
  changed : loaded.persisted = true ↔ after ≠ before
  merged : loaded.persisted = true → merge (pad (extract l.registry before).code) loaded.executable = .ok after
  persisted : loaded.persisted = true ↔ Saved l store disk before loaded (.ok ())
  failed : ∀ err, loaded.persistError? = some err ↔ Saved l store disk before loaded (.error err)
  fingerprint : loaded.fingerprint = some (SealedScript.fingerprint after)

theorem report_rebuilt_iff {x : Artifact.Resolved} {e : Executable} {back : WriteBack} :
    (∃ found, (report name text x e back).outcome = .rebuilt found) ↔ x.rebuilt = true := by
  cases hrebuilt : x.rebuilt with
  | true => simp [report, hrebuilt]
  | false => simp [report, hrebuilt]

theorem saved_iff {x : Artifact.Resolved} {e : Executable} {back : WriteBack} {merged : Text} {result : Outcome Unit}
    (h : x.rebuilt = true → merge (pad (extract l.registry text).code) e = .ok merged) :
    Saved l store disk text (report store.name text x e back) result ↔
      (x.rebuilt = true ∧ l.policy.writeBack = true ∧ merged ≠ text) ∧
        (store.save disk merged).result = result := by
  rw [Saved, report_rebuilt_iff]
  constructor
  · rintro ⟨hwrites, hrebuilt, merged', hmerge, hdiffer, hsave⟩
    obtain rfl : merged' = merged := Except.ok.inj (hmerge.symm.trans (h hrebuilt))
    exact ⟨⟨hrebuilt, hwrites, hdiffer⟩, hsave⟩
  · rintro ⟨⟨hrebuilt, hwrites, hdiffer⟩, hsave⟩
    exact ⟨hwrites, hrebuilt, merged, h hrebuilt, hdiffer, hsave⟩

theorem loadStore_truthful {x : Artifact.Resolved} {e : Executable}
    (hread : l.readStore store disk = .ok (text, x, e))
    (hfailed : ∀ merged err, (store.save disk merged).result = .error err →
      (store.save disk merged).store.load (store.save disk merged).disk = .ok text) :
    ∃ after, (l.loadStore store disk).store.load (l.loadStore store disk).disk = .ok after ∧
      Truthful l store disk text after (report store.name text x e (l.backOf store disk text x e).1) := by
  obtain ⟨hload, hresolve, he⟩ := readStore_eq_ok.mp hread
  obtain ⟨merged, hmerge, hcases⟩ := l.backOf_cases store disk text x e
  have hmerged : x.rebuilt = true → merge (pad (extract l.registry text).code) e = .ok merged := by
    intro hrebuilt
    rcases Artifact.resolve_spec hresolve he with ⟨hkept, -⟩ | ⟨-, hcode, -⟩
    · exact absurd (hkept.symm.trans hrebuilt) Bool.false_ne_true
    · rwa [← hcode]
  rw [loadStore_eq hread]
  rcases hcases with ⟨hnone, hback⟩ | ⟨hdue, ⟨hsave, hback⟩ | ⟨err, hsave, hback⟩⟩
  · rw [hback]
    refine ⟨text, hload, ⟨nofun, fun hdiffer => absurd rfl hdiffer⟩, nofun, ?_, fun err => ?_, rfl⟩
    · rw [saved_iff hmerged]
      exact ⟨nofun, fun h => absurd h.1 hnone⟩
    · rw [saved_iff hmerged]
      exact ⟨nofun, fun h => absurd h.1 hnone⟩
  · rw [hback]
    refine ⟨merged, Store.load_save hsave, ⟨fun _ => hdue.2.2, fun _ => rfl⟩, fun _ => hmerged hdue.1, ?_,
      fun err => ?_, rfl⟩
    · rw [saved_iff hmerged]
      exact ⟨fun _ => ⟨hdue, hsave⟩, fun _ => rfl⟩
    · rw [saved_iff hmerged, hsave]
      exact ⟨nofun, nofun⟩
  · rw [hback]
    refine ⟨text, hfailed merged err hsave, ⟨nofun, fun hdiffer => absurd rfl hdiffer⟩, nofun, ?_, fun err' => ?_,
      rfl⟩
    · rw [saved_iff hmerged, hsave]
      exact ⟨nofun, nofun⟩
    · rw [saved_iff hmerged, hsave, Except.error.injEq]
      exact ⟨fun h => ⟨hdue, Option.some.inj h⟩, fun h => congrArg some h.2⟩

/-! ## Memory stores -/

/-- A memory store that cannot be saved to is as it was. -/
theorem save_memory_failed {writable : Bool} {saves : Nat} {merged : Text} {err : Failure}
    (h : ((Store.memory name writable text saves).save disk merged).result = .error err) :
    ((Store.memory name writable text saves).save disk merged).store.load
      ((Store.memory name writable text saves).save disk merged).disk = .ok text := by
  cases writable with
  | true => cases h
  | false => rfl

/-- **Writing back does not affect a load, and its report is right.** A new loader loads the same from a memory store
that can be saved to as from one that is read-only. What the report tells about the store is so when the load
returns. Without leave to compile nothing is written; the load succeeds exactly if the artifact is fresh, and
otherwise the error says that compiling would help. -/
theorem load_reports {registry : Registry} {policy : Policy} (h : make registry policy = .ok l) (name text : Text)
    (saves : Nat) (disk : FileTree) :
    let store (writable : Bool) : Store := .memory name writable text saves
    let loading (writable : Bool) : Loading Loaded := l.load (store writable) disk
    ((∃ err, (loading true).result = .error err ∧ (loading false).result = .error err) ∨
      ∃ written kept, (loading true).result = .ok written ∧ (loading false).result = .ok kept ∧
        written.outcome = kept.outcome ∧ written.executable = kept.executable) ∧
    (∀ writable,
      (∀ err, (loading writable).result = .error err → (loading writable).store = store writable) ∧
      ∀ loaded, (loading writable).result = .ok loaded →
        ∃ after, (loading writable).store.load (loading writable).disk = .ok after ∧
          Truthful l (store writable) disk text after loaded) ∧
    (policy.recompile = false →
      (∀ (other : Loader) (store : Store) (disk : FileTree), other.policy = policy →
        (other.load store disk).store = store ∧ (other.load store disk).disk = disk) ∧
      ∀ writable, ((∃ loaded, (loading writable).result = .ok loaded) ↔
          (extract l.registry text).validation = .fresh) ∧
        ∀ err, (loading writable).result = .error err → err.isRepairable = true) := by
  intro store loading
  obtain ⟨-, hpolicy, hnone⟩ := make_spec h
  have hloading : ∀ writable, loading writable = l.loadStore (store writable) disk :=
    fun writable => load_unremembered (hnone name)
  -- Nothing that is read depends on whether the store can be saved to.
  have hread : ∀ writable, l.readStore (store writable) disk = l.readStore (store true) disk := fun writable => rfl
  simp only [hloading]
  refine ⟨?_, fun writable => ⟨fun err herr => ?_, fun loaded hloaded => ?_⟩,
    fun hrecompile => ⟨?_, fun writable => ?_⟩⟩
  · cases hboth : l.readStore (store true) disk with
    | error err =>
      rw [loadStore, hboth, loadStore, hread false, hboth]
      exact .inl ⟨err, rfl, rfl⟩
    | ok parts =>
      obtain ⟨text', x, e⟩ := parts
      rw [loadStore_eq hboth, loadStore_eq ((hread false).trans hboth)]
      exact .inr ⟨_, _, rfl, rfl, rfl, rfl⟩
  · cases hone : l.readStore (store writable) disk with
    | error err =>
      rw [loadStore, hone]
    | ok parts =>
      rw [loadStore_eq hone] at herr
      cases herr
  · obtain ⟨text', x, e, hone, rfl⟩ := loadStore_spec hloaded
    obtain ⟨hload, -, -⟩ := readStore_eq_ok.mp hone
    cases hload
    exact loadStore_truthful hone fun merged err hsave => save_memory_failed hsave
  · rintro other store disk rfl
    exact load_unpermitted hrecompile store disk
  · rw [← hpolicy] at hrecompile
    have hload : (store writable).load disk = .ok text := rfl
    exact loadStore_unpermitted hrecompile hload

/-- A script is compiled and saved, compiled and not saved, or refused. -/
theorem load_reports_sample :
    (make .builtins .standard = .ok sampleLoader ∧
      ∃ written kept,
        (sampleLoader.load (.memory "t.rpn" true (Artifact.sample "RPN") 0) .empty).result = .ok written ∧
        (sampleLoader.load (.memory "t.rpn" false (Artifact.sample "RPN") 0) .empty).result = .ok kept ∧
        written.outcome = kept.outcome ∧ written.executable = kept.executable ∧ written.persisted = true ∧
        kept.persistError? = some (.readOnly "t.rpn")) ∧
    ∃ strict, make .builtins ⟨false, true, false, none⟩ = .ok strict ∧
      ∃ err, (strict.load (.memory "t.rpn" true (Artifact.sample "RPN") 0) .empty).result = .error err ∧
        err.isRepairable = true := by
  obtain ⟨merged, hmerge, hdiffer⟩ := sample_merged
  let store (writable : Bool) : Store := .memory "t.rpn" writable (Artifact.sample "RPN") 0
  have hloaded : ∀ writable, ∃ loaded, (sampleLoader.load (store writable) .empty).result = .ok loaded ∧
      loaded.outcome = .rebuilt .noTrailer ∧ loaded.executable = Artifact.compiledSample "RPN" := by
    intro writable
    exact ⟨_, congrArg Loading.result (loadStore_eq (sampleLoader_read_memory writable 0)), rfl, rfl⟩
  have hsaved : ∀ {writable loaded}, loaded.outcome = .rebuilt .noTrailer →
      loaded.executable = Artifact.compiledSample "RPN" → Saved sampleLoader (store writable) .empty
        (Artifact.sample "RPN") loaded ((store writable).save .empty merged).result := by
    intro writable loaded houtcome hexecutable
    refine ⟨rfl, ⟨_, houtcome⟩, merged, ?_, hdiffer, rfl⟩
    rw [hexecutable]
    exact hmerge
  constructor
  · have hmake : make .builtins .standard = .ok sampleLoader := rfl
    obtain ⟨hboth, hreports, -⟩ := load_reports hmake "t.rpn" (Artifact.sample "RPN") 0 .empty
    obtain ⟨loaded, hresult, houtcome, hexecutable⟩ := hloaded true
    rcases hboth with ⟨err, herr, -⟩ | ⟨written, kept, hwritten, hkept, hsame, hsame'⟩
    · cases hresult.symm.trans herr
    · cases hresult.symm.trans hwritten
      obtain ⟨after, -, htruthful⟩ := (hreports true).2 loaded hwritten
      obtain ⟨after', -, htruthful'⟩ := (hreports false).2 kept hkept
      exact ⟨hmake, loaded, kept, hwritten, hkept, hsame, hsame',
        htruthful.persisted.mpr (hsaved houtcome hexecutable),
        (htruthful'.failed _).mpr (hsaved (hsame ▸ houtcome) (hsame' ▸ hexecutable))⟩
  · obtain ⟨strict, hmake⟩ : ∃ strict, make .builtins ⟨false, true, false, none⟩ = .ok strict := ⟨_, rfl⟩
    obtain ⟨-, -, hstrict⟩ := load_reports hmake "t.rpn" (Artifact.sample "RPN") 0 .empty
    obtain ⟨hiff, hrepairable⟩ := (hstrict rfl).2 true
    cases hresult : (strict.load (.memory "t.rpn" true (Artifact.sample "RPN") 0) .empty).result with
    | error err => exact ⟨strict, hmake, err, hresult, hrepairable err hresult⟩
    | ok loaded =>
      have hfresh := hiff.mp ⟨loaded, hresult⟩
      cases hmake
      cases hfresh

end Loader
end SealedScript
