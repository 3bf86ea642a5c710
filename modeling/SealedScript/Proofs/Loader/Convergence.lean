import SealedScript.Proofs.Loader

/-!
Loading converges (`load_converges`).

The first load of a store leaves a settled artifact in it, whatever stood there before: a fresh one that it
took as it was, or the one that it compiled and wrote back. From then on the invariant `Setting.Stable` holds
along any sequence of loads, invalidations, forgetting and new loaders, and nothing is written any more.
-/

namespace SealedScript
set_option autoImplicit false

open Artifact (Settled Fits blockOf storedBlock extract recompile merge)

variable {l : Loader} {store : Store} {disk : FileTree} {text : Text} {record : Record}

/-! ## A load of a settled artifact -/

theorem Loader.load_settled (hload : store.load disk = .ok text)
    (hsettled : Settled l.registry store.name text l.policy.forceRecompile record)
    (hrecompile : l.policy.recompile = true)
    (hmemo : ∀ e, l.memo? store.name = some e → e.toRecord = .ok record) :
    ∃ later l', l.load store disk = ⟨.ok later, l', store, disk⟩ ∧ later.writeBack = .unneeded ∧
      later.executable.toRecord = .ok record ∧ l'.registry = l.registry ∧ l'.policy = l.policy ∧
      ∀ e, l'.memo? store.name = some e → e.toRecord = .ok record := by
  cases hremembered : l.memo? store.name with
  | some e =>
    have hrecord := hmemo e hremembered
    exact ⟨_, l, by rw [load, hremembered], rfl, hrecord, rfl, rfl, hmemo⟩
  | none =>
    obtain ⟨x, e, hx, he, hrecord, hsame⟩ := hsettled.used
    have hread : l.readStore store disk = .ok (text, x, e) :=
      readStore_eq_ok.mpr ⟨hload, by rw [options, hrecompile]; exact hx, he⟩
    have hload' : l.load store disk = ⟨.ok (report store.name text x e .unneeded),
        l.withEntry store.name (.resolved e), store, disk⟩ := by
      rw [load, hremembered]
      dsimp only
      rw [loadStore_eq hread, backOf_same l hsame]
    refine ⟨report store.name text x e .unneeded, l.withEntry store.name (.resolved e), hload', rfl, hrecord, rfl,
      rfl, fun e' he' => ?_⟩
    rw [memo?_withEntry, if_pos rfl] at he'
    cases he'
    exact hrecord

/-! ## The first load -/

/-- What was compiled is in the store after it was written back. -/
theorem Loader.backOf_rebuilt {old : Text} {x : Artifact.Resolved} {e : Executable}
    (hback : l.policy.writeBack = true) (hrebuilt : x.rebuilt = true) (hmerge : merge x.code e = .ok text)
    (hload : store.load disk = .ok old) (hsave : ∀ merged, (store.save disk merged).result = .ok ()) :
    (l.backOf store disk old x e).2.1.load (l.backOf store disk old x e).2.2 = .ok text ∧
      (l.backOf store disk old x e).2.1.name = store.name ∧
      ∀ written, (l.backOf store disk old x e).1 = .written written → written = text := by
  have hwrites : l.backOf store disk old x e = writeBack store disk old x.code e := by
    rw [backOf, hrebuilt, hback]
    rfl
  rw [hwrites]
  by_cases hsame : text = old
  · subst hsame
    rw [writeBack_same hmerge]
    exact ⟨hload, rfl, fun written hwritten => nomatch hwritten⟩
  · rw [writeBack_saved hmerge hsame (hsave text)]
    refine ⟨Store.load_save (hsave text), Store.save_name store disk text, fun written hwritten => ?_⟩
    cases hwritten
    rfl

/-- A loader that remembers nothing of the artifact leaves a settled one in the store. -/
theorem Loader.load_settles {g : Engine} {loaded : Loaded} (hr : l.registry.engines = [g])
    (hg : g.isSerializable = true) (hback : l.policy.writeBack = true) (hmemo : l.memo? store.name = none)
    (hsave : ∀ merged, (store.save disk merged).result = .ok ()) (h : (l.load store disk).result = .ok loaded)
    (hserializable : loaded.executable.engine.isSerializable = true)
    (hfits : loaded.outcome ≠ .fresh →
      Fits loaded.executable.code (storedBlock loaded.executable loaded.executable.code)) :
    ∃ old text, store.load disk = .ok old ∧
      (l.load store disk).store.load (l.load store disk).disk = .ok text ∧
      (l.load store disk).store.name = store.name ∧
      (l.load store disk).loader = l.withEntry store.name (.resolved loaded.executable) ∧
      Settled l.registry store.name text l.policy.forceRecompile loaded.executable.form ∧
      (loaded.outcome ≠ .fresh → recompile l.registry store.name old = .ok (loaded.executable, text)) ∧
      ∀ written, loaded.writeBack = .written written → written = text := by
  have hstore : l.load store disk = l.loadStore store disk := by rw [load, hmemo]
  rw [hstore] at h ⊢
  obtain ⟨old, x, e, hread, rfl⟩ := loadStore_spec h
  obtain ⟨hload, hresolve, he⟩ := readStore_eq_ok.mp hread
  rw [loadStore_eq hread]
  rcases Artifact.resolve_spec hresolve he with ⟨hrebuilt, hforce, hextract⟩ | ⟨hrebuilt, hcode, hcompile⟩
  · -- The stored executable was taken, and nothing is written.
    have hkept : l.backOf store disk old x e = (.unneeded, store, disk) :=
      backOf_same l fun hanew => absurd (hrebuilt.symm.trans hanew) Bool.false_ne_true
    have hunforced : l.policy.forceRecompile = false := hforce
    have hfresh : (report store.name old x e (l.backOf store disk old x e).1).outcome = .fresh := by
      simp only [report, hrebuilt]
      rfl
    rw [hunforced]
    refine ⟨old, old, hload, ?_, ?_, rfl, Artifact.settled_of_fresh hextract (Executable.toRecord_eq hserializable),
      fun houtcome => absurd hfresh houtcome, fun written hwritten => ?_⟩
    · rw [hkept]
      exact hload
    · rw [hkept]
    · have hunneeded : (l.backOf store disk old x e).1 = .written written := hwritten
      rw [hkept] at hunneeded
      cases hunneeded
  · have hmerge := Artifact.merge_eq hserializable x.code
    have hcompiled : recompile l.registry store.name old = .ok (e, _) :=
      Artifact.recompile_intro hcode.symm hcompile hmerge
    have houtcome : (report store.name old x e (l.backOf store disk old x e).1).outcome ≠ .fresh := by
      simp only [report, hrebuilt]
      nofun
    obtain ⟨hafter, hname, hwritten⟩ := backOf_rebuilt hback hrebuilt hmerge hload hsave
    exact ⟨old, _, hload, hafter, hname, rfl,
      Artifact.settled_of_recompile hr hg hcompiled hserializable (hfits houtcome) _, fun _ => hcompiled, hwritten⟩

/-! ## Events -/

/-- What may happen to a loader. Every load is of the same store. -/
inductive LoadEvent
  | load
  | invalidate (name : Text)
  | forget (name : Text)
  /-- A new loader takes the place of the old one. -/
  | renew

structure Setting where
  loader : Loader
  store : Store
  disk : FileTree

namespace Setting

/-- What an event leads to, and what a load reports; `anew` is the new loader that `renew` brings. -/
def step (anew : Loader) (s : Setting) : LoadEvent → Option (Outcome Loaded) × Setting
  | .load =>
    let loading := s.loader.load s.store s.disk
    (some loading.result, ⟨loading.loader, loading.store, loading.disk⟩)
  | .invalidate name => (none, { s with loader := (s.loader.invalidate name).2 })
  | .forget name => (none, { s with loader := (s.loader.forget name).2 })
  | .renew => (none, { s with loader := anew })

/-- What a sequence of events leads to, and what its loads report. -/
def run (anew : Loader) (s : Setting) : List LoadEvent → List (Outcome Loaded) × Setting
  | [] => ([], s)
  | event :: rest =>
    let (report?, next) := s.step anew event
    let (reports, last) := next.run anew rest
    (report?.toList ++ reports, last)

/-- The setting has this store and disk, a loader like `anew`, and remembers this record of the artifact if it
remembers anything. -/
structure Stable (anew : Loader) (store : Store) (disk : FileTree) (record : Record) (s : Setting) : Prop where
  sameRegistry : s.loader.registry = anew.registry
  samePolicy : s.loader.policy = anew.policy
  sameStore : s.store = store
  sameDisk : s.disk = disk
  memo : ∀ e, s.loader.memo? store.name = some e → e.toRecord = .ok record

/-- A load that wrote nothing and gave an executable with this record. -/
def Unchanging (record : Record) (report : Outcome Loaded) : Prop :=
  ∃ later, report = .ok later ∧ later.writeBack = .unneeded ∧ later.executable.toRecord = .ok record

variable {anew : Loader} {s : Setting}

/-- A loader that remembers no more than the old one may take its place. -/
theorem Stable.withLoader {l' : Loader} (h : Stable anew store disk record s)
    (hregistry : l'.registry = s.loader.registry) (hpolicy : l'.policy = s.loader.policy)
    (hmemo : ∀ name e, l'.memo? name = some e → s.loader.memo? name = some e) :
    Stable anew store disk record { s with loader := l' } where
  sameRegistry := hregistry.trans h.sameRegistry
  samePolicy := hpolicy.trans h.samePolicy
  sameStore := h.sameStore
  sameDisk := h.sameDisk
  memo := fun e he => h.memo e (hmemo _ e he)

theorem step_load (hload : store.load disk = .ok text)
    (hsettled : Settled anew.registry store.name text anew.policy.forceRecompile record)
    (hrecompile : anew.policy.recompile = true) (h : Stable anew store disk record s) :
    ∃ report, (s.step anew .load).1 = some report ∧ Unchanging record report ∧
      Stable anew store disk record (s.step anew .load).2 := by
  obtain ⟨loader, store', disk'⟩ := s
  obtain ⟨hregistry, hpolicy, hstore, hdisk, hmemo⟩ := h
  dsimp only at hregistry hpolicy hstore hdisk hmemo
  subst hstore hdisk
  rw [← hregistry, ← hpolicy] at hsettled
  rw [← hpolicy] at hrecompile
  obtain ⟨later, l', hlater, hback, hrecord, hregistry', hpolicy', hmemo'⟩ :=
    Loader.load_settled hload hsettled hrecompile hmemo
  simp only [step, hlater]
  exact ⟨_, rfl, ⟨later, rfl, hback, hrecord⟩, hregistry'.trans hregistry, hpolicy'.trans hpolicy, rfl, rfl, hmemo'⟩

/-- **What one event preserves.** -/
theorem step_stable (hload : store.load disk = .ok text)
    (hsettled : Settled anew.registry store.name text anew.policy.forceRecompile record)
    (hrecompile : anew.policy.recompile = true) (hnew : anew.memo? store.name = none)
    (h : Stable anew store disk record s) (event : LoadEvent) :
    Stable anew store disk record (s.step anew event).2 ∧
      ∀ report, (s.step anew event).1 = some report → Unchanging record report := by
  cases event with
  | load =>
    obtain ⟨report, hreport, hunchanging, hstable⟩ := step_load hload hsettled hrecompile h
    refine ⟨hstable, fun other hother => ?_⟩
    rw [hreport, Option.some.injEq] at hother
    rwa [← hother]
  | invalidate name =>
    obtain ⟨hregistry, hpolicy⟩ := s.loader.invalidate_kept name
    refine ⟨h.withLoader hregistry hpolicy fun other e he => ?_, fun report hreport => nomatch hreport⟩
    rw [Loader.memo?_invalidate] at he
    split at he
    · cases he
    · exact he
  | forget name =>
    refine ⟨h.withLoader rfl rfl fun other e he => ?_, fun report hreport => nomatch hreport⟩
    rw [Loader.memo?_forget] at he
    split at he
    · cases he
    · exact he
  | renew =>
    refine ⟨⟨rfl, rfl, h.sameStore, h.sameDisk, fun e he => ?_⟩, fun report hreport => nomatch hreport⟩
    have hremembered : anew.memo? store.name = some e := he
    rw [hnew] at hremembered
    cases hremembered

/-- **Nothing changes any more**, however long it goes on. -/
theorem run_stable (hload : store.load disk = .ok text)
    (hsettled : Settled anew.registry store.name text anew.policy.forceRecompile record)
    (hrecompile : anew.policy.recompile = true) (hnew : anew.memo? store.name = none)
    (h : Stable anew store disk record s) (events : List LoadEvent) :
    Stable anew store disk record (s.run anew events).2 ∧
      ∀ report ∈ (s.run anew events).1, Unchanging record report := by
  induction events generalizing s with
  | nil =>
    rw [run]
    exact ⟨h, fun report hmem => nomatch hmem⟩
  | cons event rest ih =>
    obtain ⟨hnext, hreport⟩ := step_stable hload hsettled hrecompile hnew h event
    obtain ⟨hlast, hreports⟩ := ih hnext
    rw [run]
    refine ⟨hlast, fun report hmem => ?_⟩
    rcases List.mem_append.mp hmem with hfirst | hlater
    · exact hreport report (Option.mem_toList.mp hfirst)
    · exact hreports report hlater

end Setting

/-! ## Convergence -/

/-- **Loading converges.** A new loader that may compile and write back loads an executable from a store that
can be saved to. Then the artifact in the store is fresh; if it was compiled, it is what compiling the old text
gives. However often the store is loaded afterwards, with the loader or a new one, nothing is written and the
executable has the same record. -/
theorem Loader.load_converges {policy : Policy} {loaded : Loaded} (hmake : Loader.make .builtins policy = .ok l)
    (hrecompile : policy.recompile = true) (hback : policy.writeBack = true)
    (hsave : ∀ merged, (store.save disk merged).result = .ok ()) (h : (l.load store disk).result = .ok loaded)
    (hserializable : loaded.executable.engine.isSerializable = true)
    (hsize : loaded.outcome ≠ .fresh → Text.unitLength loaded.executable.code < Nat.pow 2 32 - 1 ∧
      ∀ block, blockOf loaded.executable loaded.executable.code = .ok block →
        Text.unitLength block < Nat.pow 2 32 - 1) :
    ∃ old text record, store.load disk = .ok old ∧
      (l.load store disk).store.load (l.load store disk).disk = .ok text ∧
      (extract l.registry text).validation = .fresh ∧ loaded.executable.toRecord = .ok record ∧
      (loaded.outcome ≠ .fresh → recompile l.registry store.name old = .ok (loaded.executable, text)) ∧
      (∀ written, loaded.writeBack = .written written → written = text) ∧
      ∀ events,
        let after : Setting := ⟨(l.load store disk).loader, (l.load store disk).store, (l.load store disk).disk⟩
        (after.run l events).2.store = after.store ∧ (after.run l events).2.disk = after.disk ∧
          ∀ report ∈ (after.run l events).1, ∃ later, report = .ok later ∧ later.writeBack = .unneeded ∧
            later.executable.toRecord = .ok record := by
  obtain ⟨hengines, rfl, hnone⟩ := make_spec hmake
  have hfits : loaded.outcome ≠ .fresh →
      Fits loaded.executable.code (storedBlock loaded.executable loaded.executable.code) := fun houtcome =>
    Artifact.fits_of_lengths hserializable (hsize houtcome).1 (hsize houtcome).2
  obtain ⟨old, text, hload, hafter, hname, hloader, hsettled, hcompiled, hwritten⟩ :=
    load_settles hengines rfl hback (hnone _) hsave h hserializable hfits
  refine ⟨old, text, loaded.executable.form, hload, hafter, hsettled.fresh, Executable.toRecord_eq hserializable,
    hcompiled, hwritten, fun events => ?_⟩
  rw [← hname] at hsettled
  have hstable : Setting.Stable l (l.load store disk).store (l.load store disk).disk loaded.executable.form
      ⟨(l.load store disk).loader, (l.load store disk).store, (l.load store disk).disk⟩ := by
    refine ⟨by rw [hloader]; rfl, by rw [hloader]; rfl, rfl, rfl, fun e he => ?_⟩
    rw [hloader, hname, memo?_withEntry, if_pos rfl] at he
    cases he
    exact Executable.toRecord_eq hserializable
  obtain ⟨hlast, hreports⟩ := Setting.run_stable hafter hsettled hrecompile (hnone _) hstable events
  exact ⟨hlast.sameStore, hlast.sameDisk, hreports⟩

/-- A script in a file of the working directory. -/
def sampleDisk : FileTree := FileTree.empty.put FileTree.newHome.reverse "t.rpn" (.file (Artifact.sample "RPN"))

def sampleLoader : Loader := ⟨.builtins, .standard, [], rfl⟩

def sampleLoading : Loading Loaded := sampleLoader.load (.file "t.rpn" true) sampleDisk

theorem sampleLoader_read :
    sampleLoader.readStore (.file "t.rpn" true) sampleDisk =
      .ok (Artifact.sample "RPN", ⟨some (Artifact.compiledSample "RPN"), (Artifact.compiledSample "RPN").code,
        .noTrailer, true⟩, Artifact.compiledSample "RPN") := Loader.readStore_eq_ok.mpr ⟨rfl, rfl, rfl⟩

theorem sampleLoader_read_memory (writable : Bool) (saves : Nat) :
    sampleLoader.readStore (.memory "t.rpn" writable (Artifact.sample "RPN") saves) .empty =
      .ok (Artifact.sample "RPN", ⟨some (Artifact.compiledSample "RPN"), (Artifact.compiledSample "RPN").code,
        .noTrailer, true⟩, Artifact.compiledSample "RPN") := Loader.readStore_eq_ok.mpr ⟨rfl, rfl, rfl⟩

theorem sample_merged :
    ∃ merged, merge (Artifact.compiledSample "RPN").code (Artifact.compiledSample "RPN") = .ok merged ∧
      merged ≠ Artifact.sample "RPN" := by
  refine ⟨_, Artifact.merge_eq rfl _, fun hsame => ?_⟩
  have hlength := congrArg List.length hsame
  have hpadded := (Artifact.prefix_pad (Artifact.compiledSample "RPN").code).length_le
  have hlonger : (Artifact.sample "RPN").length < (Artifact.compiledSample "RPN").code.length := by decide
  simp only [Artifact.sealedText, Artifact.sealedFront, List.length_append] at hlength
  omega

theorem Loader.load_converges_sample :
    ∃ loaded text record, sampleLoading.result = .ok loaded ∧
      sampleLoading.store.load sampleLoading.disk = .ok text ∧
      (extract .builtins text).validation = .fresh ∧ loaded.executable.toRecord = .ok record ∧
      recompile .builtins "t.rpn" (Artifact.sample "RPN") = .ok (loaded.executable, text) ∧
      ∀ events,
        let after : Setting := ⟨sampleLoading.loader, sampleLoading.store, sampleLoading.disk⟩
        (after.run sampleLoader events).2.store = after.store ∧ (after.run sampleLoader events).2.disk = after.disk ∧
          ∀ report ∈ (after.run sampleLoader events).1, ∃ later, report = .ok later ∧
            later.writeBack = .unneeded ∧ later.executable.toRecord = .ok record := by
  have hmake : Loader.make .builtins .standard = .ok sampleLoader := rfl
  have hsave : ∀ merged, ((Store.file "t.rpn" true).save sampleDisk merged).result = .ok () := fun _ => rfl
  obtain ⟨loaded, hloaded, hexecutable, houtcome⟩ : ∃ loaded,
      (sampleLoader.load (.file "t.rpn" true) sampleDisk).result = .ok loaded ∧
        loaded.executable = Artifact.compiledSample "RPN" ∧ loaded.outcome = .rebuilt .noTrailer :=
    ⟨_, congrArg Loading.result (loadStore_eq sampleLoader_read), rfl, rfl⟩
  have hblock : ∀ block, blockOf loaded.executable loaded.executable.code = .ok block →
      Text.unitLength block < Nat.pow 2 32 - 1 := by
    intro block hblock
    rw [hexecutable, Artifact.blockOf_eq rfl, Except.ok.injEq] at hblock
    rw [← hblock]
    decide +kernel
  have hserializable : loaded.executable.engine.isSerializable = true := by rw [hexecutable]; rfl
  have hsource : Text.unitLength loaded.executable.code < Nat.pow 2 32 - 1 := by
    rw [hexecutable]
    decide +kernel
  obtain ⟨old, text, record, hold, htext, hfresh, hrecord, hcompiled, -, hevents⟩ :=
    load_converges hmake rfl rfl hsave hloaded hserializable fun _ => ⟨hsource, hblock⟩
  cases hold
  exact ⟨loaded, text, record, hloaded, htext, hfresh, hrecord, hcompiled (by rw [houtcome]; nofun), hevents⟩

end SealedScript
