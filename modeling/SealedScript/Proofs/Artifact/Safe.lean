import SealedScript.Proofs.Artifact.Extract
import SealedScript.Proofs.Artifact.Offset
import SealedScript.Proofs.Executable.Forged
import SealedScript.Proofs.Text.Match

/-!
Extracting is safe on every text (`extract_safe`).

The source in front of a trailer that is not put to use, too, is found by offsets: the openings of blocks that start a
line, the margin of the comment around the last one, the start of the character that this margin falls into.
-/

namespace SealedScript.Artifact
set_option autoImplicit false

open Text (front? lastByteOf? byteLength)

variable {a before counts text : Text} {t : Trailer}

/-! ## Source without a usable trailer -/

/-- Does a line start at the offset? -/
def startsLine? (text : Text) (offset : Nat) : Option Bool :=
  if 0 < offset then (front? text offset).map (Text.endsWith ['\n']) else some false

/-- The source in front of the last block that opens ahead of `place`. -/
def sourceBeforeAt (text : Text) (place : Nat) : Option Text := do
  let before ← front? text place
  let openings ← filter? (startsLine? text) (Text.matchesOf Block.opening before)
  match openings.getLast? with
  | none => return text
  | some opening =>
    let limit ← Text.boundaryBack? text (min (opening + 3 - commentWidth) (byteLength text))
    let margin ← front? text limit
    match lastByteOf? ['\n'] margin with
    | none => return []
    | some stop => front? text stop

theorem opening_unbordered : Text.Unbordered Block.opening := by decide

theorem endsWith_eq_true {tail : Text} : Text.endsWith tail text = true ↔ ∃ front, text = front ++ tail := by
  rw [Text.endsWith, Option.isSome_iff_exists]
  simp only [Text.dropTail?_eq_some]

/-- A block that opens in the front of a text starts a line exactly when a line feed stands in front of it. -/
theorem startsLine?_eq (h : a ++ Block.opening <+: before) (hbefore : before <+: text) :
    startsLine? text (byteLength a) = some (Text.endsWith ['\n'] a) := by
  have hfront := Text.front?_of_front (((List.prefix_append a _).trans h).trans hbefore)
  rw [startsLine?, hfront]
  by_cases hpos : 0 < byteLength a
  · rw [if_pos hpos]
    rfl
  · cases a with
    | nil => rfl
    | cons c a =>
      have hc := c.utf8Size_pos
      rw [Text.byteLength_cons] at hpos
      omega

/-- The openings that start a line, and the place of the last one. -/
theorem lastOpening (hbefore : before <+: text) :
    ∃ openings, filter? (startsLine? text) (Text.matchesOf Block.opening before) = some openings ∧
      openings.getLast? = (Text.lastIndexOf? ('\n' :: Block.opening) before).map fun start =>
        byteLength (before.take start) + 1 := by
  have hmember : ∀ n ∈ Text.matchesOf Block.opening before,
      startsLine? text n = some ((startsLine? text n).getD false) := by
    intro n hn
    obtain ⟨a, ha, rfl⟩ := (Text.mem_matchesOf opening_unbordered).mp hn
    rw [startsLine?_eq ha hbefore, Option.getD_some]
  refine ⟨_, filter?_eq hmember, ?_⟩
  -- An opening that starts a line is the opening with its line feed, met one byte earlier.
  have hline : ∀ a, a ++ Block.opening <+: before → (startsLine? text (byteLength a)).getD false = true →
      ∃ front, a = front ++ ['\n'] ∧ ('\n' :: Block.opening) <+: before.drop front.length := by
    intro a ha hstarts
    rw [startsLine?_eq ha hbefore, Option.getD_some] at hstarts
    obtain ⟨front, rfl⟩ := endsWith_eq_true.mp hstarts
    obtain ⟨rest, rfl⟩ := ha
    exact ⟨front, rfl, by simp⟩
  cases hlast : Text.lastIndexOf? ('\n' :: Block.opening) before with
  | none =>
    rw [Option.map_none, List.getLast?_eq_none_iff, List.filter_eq_nil_iff]
    intro n hn hstarts
    obtain ⟨a, ha, rfl⟩ := (Text.mem_matchesOf opening_unbordered).mp hn
    obtain ⟨front, rfl, hopens⟩ := hline a ha hstarts
    obtain ⟨k, hk⟩ := Text.exists_lastAt (by decide) (hopens.isInfix.trans (List.drop_suffix _ _).isInfix)
    rw [(Text.lastIndexOf?_eq_some (by decide)).mpr hk] at hlast
    cases hlast
  | some start =>
    obtain ⟨⟨rest, hrest⟩, hlater⟩ := (Text.lastIndexOf?_eq_some (by decide)).mp hlast
    have hstart : before.take start ++ ['\n'] ++ Block.opening <+: before := by
      refine ⟨rest, ?_⟩
      conv => rhs; rw [← List.take_append_drop start before, ← hrest]
      simp
    have htake : (before.take start).length = start := by
      have hlength := congrArg List.length hrest
      rw [List.length_append, List.length_cons, List.length_drop] at hlength
      rw [List.length_take]
      omega
    have hlength : byteLength (before.take start ++ ['\n']) = byteLength (before.take start) + 1 :=
      Text.byteLength_append _ _
    rw [Option.map_some, ← hlength]
    refine getLast?_filter_of_sorted (Text.matchesOf_sorted _ _)
      ((Text.mem_matchesOf opening_unbordered).mpr ⟨_, hstart, rfl⟩) ?_ fun m hm hmore => ?_
    · rw [startsLine?_eq hstart hbefore, Option.getD_some]
      exact endsWith_eq_true.mpr ⟨_, rfl⟩
    · -- A later one that starts a line would be met later with its line feed, too.
      obtain ⟨a, ha, rfl⟩ := (Text.mem_matchesOf opening_unbordered).mp hm
      refine Bool.eq_false_iff.mpr fun hstarts => ?_
      obtain ⟨front, rfl, hopens⟩ := hline a ha hstarts
      refine hlater front.length (Nat.lt_of_not_le fun hle => ?_) hopens
      have hfront : front <+: before := (List.prefix_append _ _).trans ((List.prefix_append _ _).trans ha)
      have hshorter := Text.byteLength_le_of_front
        (List.prefix_of_prefix_length_le hfront (List.take_prefix start before) (by rwa [htake]))
      rw [hlength, Text.byteLength_append] at hmore
      exact absurd hmore (Nat.not_lt.mpr (Nat.add_le_add_right hshorter 1))

/-- **The source in front of a trailer is cut where characters start.** -/
theorem sourceBeforeAt_eq (hbefore : before <+: text) :
    sourceBeforeAt text (byteLength before) = some (sourceBefore text before) := by
  obtain ⟨openings, hopenings, hlast⟩ := lastOpening hbefore
  simp only [sourceBeforeAt, Text.front?_of_front hbefore, Option.bind_eq_bind, Option.bind_some, hopenings, hlast,
    sourceBefore]
  cases Text.lastIndexOf? ('\n' :: Block.opening) before with
  | none => rfl
  | some start =>
    have hahead : before.take start <+: text := (List.take_prefix start before).trans hbefore
    have hbyte := Text.byteLength_le_of_front hahead
    obtain ⟨behind, htext⟩ := hahead
    simp only [Option.map_some]
    generalize before.take start = ahead at hbyte htext
    have hlimit : min (byteLength ahead + 1 + 3 - commentWidth) (byteLength text) =
        byteLength ahead + 4 - commentWidth := by
      rw [commentWidth]
      omega
    have hback := Text.boundaryBack?_eq ahead behind (n := byteLength ahead + 4 - commentWidth) (by
      rw [commentWidth]
      omega)
    rw [htext] at hback
    have hmargin : ahead.take (Text.floorByteIndex ahead (byteLength ahead + 4 - commentWidth)) <+: text :=
      (List.take_prefix _ ahead).trans ⟨behind, htext⟩
    simp only [hlimit, hback, Option.bind_some, Text.front?_of_front hmargin, lastByteOf?]
    generalize ahead.take (Text.floorByteIndex ahead (byteLength ahead + 4 - commentWidth)) = margin at hmargin
    cases Text.lastIndexOf? ['\n'] margin with
    | none => rfl
    | some stop => exact Text.front?_of_front ((List.take_prefix stop margin).trans hmargin)

theorem sourceBefore_front (hbefore : before <+: text) : sourceBefore text before <+: text := by
  unfold sourceBefore
  split
  case h_1 => exact List.prefix_rfl
  case h_2 =>
    simp only
    split
    case h_1 stop _ =>
      exact (List.take_prefix stop _).trans ((List.take_prefix _ _).trans ((List.take_prefix _ _).trans hbefore))
    case h_2 => exact List.nil_prefix

/-! ## Whole artifacts -/

/-- Decodes the block of a trailer. Only a record that is refused has its signature shown. -/
def decodeAt (r : Registry) (t : Trailer) : Guarded Failure Executable := do
  let bytes ← within ((Block.decode t.block).mapError .codec)
  let envelope ← within ((Envelope.decode bytes).mapError .codec)
  let engine ← within (r.resolve envelope.engine envelope.parameter)
  let payload ← within ((Payload.decode envelope.payload).mapError .codec)
  if payload.sourceDigest ≠ t.sourceDigest then
    throw (.codec (.digestMismatch (Text.trim payload.sourceDigest) (Text.trim t.sourceDigest)))
  else Executable.ofRecordAt payload.executable engine

def extractTrailerAt (r : Registry) (text : Text) (t : Trailer) (hashesAt : Nat) : Option Contents :=
  if t.sourceChanged then do return ⟨.staleSource, ← sourceBeforeAt text hashesAt, none⟩
  else if t.blockChanged then do return ⟨.staleCompiled, ← sourceBeforeAt text hashesAt, none⟩
  else do
    match ← (decodeAt r t).run with
    | .ok e => return ⟨.fresh, t.source, some e⟩
    | .error _ => return ⟨.staleCompiled, t.source, none⟩

/-- Takes an artifact apart by offsets; `none` where a slice or a difference leaves its range. -/
def extractAt (r : Registry) (text : Text) : Option Contents :=
  match lastByteOf? countsMark text with
  | none => some ⟨.noTrailer, text, none⟩
  | some countsAt => do
    match ← (readTrailerAt text countsAt).run with
    | .error fault => return ⟨.malformed fault, ← sourceBeforeAt text countsAt, none⟩
    | .ok (t, hashesAt) => extractTrailerAt r text t hashesAt

theorem splitAtCounts?_eq_none : splitAtCounts? text = none ↔ ¬ countsMark <:+: text := by
  have hmark : countsMark ≠ [] := by decide
  rw [splitAtCounts?, Option.map_eq_none_iff]
  constructor
  · intro hnone hinfix
    obtain ⟨k, hk⟩ := Text.exists_lastAt hmark hinfix
    rw [(Text.lastIndexOf?_eq_some hmark).mpr hk] at hnone
    cases hnone
  · intro hno
    cases hlast : Text.lastIndexOf? countsMark text with
    | none => rfl
    | some start =>
      obtain ⟨hmark, -⟩ := (Text.lastIndexOf?_eq_some hmark).mp hlast
      exact absurd (hmark.isInfix.trans (List.drop_suffix start text).isInfix) hno

theorem splitAtCounts?_eq_some (h : splitAtCounts? text = some (before, counts)) :
    text = before ++ counts ∧ countsMark <+: counts ∧ lastByteOf? countsMark text = some (byteLength before) := by
  obtain ⟨start, hlast, hsplit⟩ := Option.map_eq_some_iff.mp h
  rw [List.splitAt_eq, Prod.mk.injEq] at hsplit
  obtain ⟨rfl, rfl⟩ := hsplit
  refine ⟨(List.take_append_drop start text).symm, ((Text.lastIndexOf?_eq_some (by decide)).mp hlast).1, ?_⟩
  rw [lastByteOf?, hlast, Option.map_some]

/-- The parts of a text that is cut in front of its trailer are fronts of it. -/
theorem readTrailer_fronts (h : readTrailer before counts = .ok t) :
    t.head <+: before ++ counts ∧ t.source <+: before ++ counts := by
  obtain ⟨source, block, -, -, hhashes, -, hsource⟩ := readTrailer_eq_ok.mp h
  constructor
  · obtain ⟨line, rfl⟩ := readHashes_front hhashes
    exact (List.prefix_append _ _).trans (List.prefix_append _ _)
  · rw [cutSource] at hsource
    split at hsource
    case h_1 stop _ =>
      rw [← (Prod.mk.inj (Except.ok.inj hsource)).1]
      exact List.take_prefix stop _
    case h_2 => cases hsource

theorem decodeAt_eq (r : Registry) (t : Trailer) : decodeAt r t = within (decode r t) := by
  rw [decodeAt, decode]
  refine within_bind_eq fun bytes _ => within_bind_eq fun envelope _ => ?_
  refine within_bind_eq fun engine _ => within_bind_eq fun payload _ => ?_
  rw [Executable.ofRecordAt_eq]
  split <;> rfl

theorem extractTrailerAt_eq (r : Registry) (hhead : t.head <+: text) :
    extractTrailerAt r text t (byteLength t.head) = some (extractTrailer r text t) := by
  rw [extractTrailerAt, extractTrailer, sourceBeforeAt_eq hhead, decodeAt_eq]
  cases t.sourceChanged with
  | true => rfl
  | false =>
    cases t.blockChanged with
    | true => rfl
    | false => cases decode r t <;> rfl

theorem extractAt_eq (r : Registry) (text : Text) : extractAt r text = some (extract r text) := by
  cases hsplit : splitAtCounts? text with
  | none =>
    have hlast : lastByteOf? countsMark text = none := by
      rw [lastByteOf?, Option.map_eq_none_iff]
      exact Option.map_eq_none_iff.mp hsplit
    rw [extractAt, hlast, extract, hsplit]
  | some parts =>
    obtain ⟨before, counts⟩ := parts
    obtain ⟨rfl, hmark, hlast⟩ := splitAtCounts?_eq_some hsplit
    simp only [extractAt, hlast, readTrailerAt_eq hmark]
    cases hread : readTrailer before counts with
    | error fault =>
      rw [extract_error hsplit hread]
      show (sourceBeforeAt _ (byteLength before)).bind _ = _
      rw [sourceBeforeAt_eq (List.prefix_append before counts)]
      rfl
    | ok t =>
      rw [extract_ok hsplit hread]
      exact extractTrailerAt_eq r (readTrailer_fronts hread).1

theorem extractTrailer_code (r : Registry) (hhead : t.head <+: text) (hsource : t.source <+: text) :
    (extractTrailer r text t).code <+: text := by
  unfold extractTrailer
  split
  case isTrue => exact sourceBefore_front hhead
  case isFalse =>
    split
    case isTrue => exact sourceBefore_front hhead
    case isFalse => cases decode r t <;> exact hsource

theorem extract_code (r : Registry) (text : Text) : (extract r text).code <+: text := by
  cases hsplit : splitAtCounts? text with
  | none =>
    have hcode : (extract r text).code = text := by rw [extract, hsplit]
    exact ⟨[], by rw [hcode, List.append_nil]⟩
  | some parts =>
    obtain ⟨rfl, -, -⟩ := splitAtCounts?_eq_some hsplit
    cases hread : readTrailer parts.1 parts.2 with
    | error fault =>
      rw [extract_error hsplit hread]
      exact sourceBefore_front (List.prefix_append _ _)
    | ok t =>
      rw [extract_ok hsplit hread]
      exact extractTrailer_code r (readTrailer_fronts hread).1 (readTrailer_fronts hread).2

theorem extractTrailer_validation (r : Registry) (text : Text) (t : Trailer) :
    (extractTrailer r text t).validation ≠ .noTrailer := by
  unfold extractTrailer
  split
  case isTrue => nofun
  case isFalse =>
    split
    case isTrue => nofun
    case isFalse => cases decode r t <;> nofun

theorem extract_noTrailer (r : Registry) (text : Text) :
    (extract r text).validation = .noTrailer ↔ ¬ countsMark <:+: text := by
  rw [← splitAtCounts?_eq_none]
  cases hsplit : splitAtCounts? text with
  | none => simp [extract, hsplit]
  | some parts =>
    refine ⟨fun hnone => ?_, fun hsome => absurd hsome (Option.some_ne_none parts)⟩
    cases hread : readTrailer parts.1 parts.2 with
    | error fault =>
      rw [extract_error hsplit hread] at hnone
      cases hnone
    | ok t =>
      rw [extract_ok hsplit hread] at hnone
      exact absurd hnone (extractTrailer_validation r _ _)

/-- **Extracting is safe on every text.** No slice is cut out of order, outside of the text or inside a character, no
difference falls below zero, and what comes out keeps to the text. -/
theorem extract_safe (r : Registry) (text : Text) :
    extractAt r text = some (extract r text) ∧
      (extract r text).code <+: text ∧
      ((extract r text).executable.isSome = true ↔ (extract r text).validation = .fresh) ∧
      ((extract r text).validation = .noTrailer ↔ ¬ ("\n##:COUNTS:" : Text) <:+: text) := by
  refine ⟨extractAt_eq r text, extract_code r text, ?_, extract_noTrailer r text⟩
  rcases extract_cases r text with ⟨code, e, h⟩ | ⟨hvalidation, hnone⟩
  · rw [h]
    exact ⟨fun _ => rfl, fun _ => rfl⟩
  · rw [hnone]
    exact ⟨nofun, fun h => absurd h hvalidation⟩

end SealedScript.Artifact
