import SealedScript.Proofs.Artifact.Extract
import SealedScript.Proofs.Text.Offset

/-!
Trailers read at byte offsets.

A trailer is found by places in the text: the byte at which its last line of lengths starts, the columns of its fields,
the code units that a recorded length counts. Here each of them is cut out by its offsets, and each difference is taken
only where it does not fall below zero. Nothing that a text records makes this reader leave its range, and it reads
what `readTrailer` reads (`readTrailerAt_eq`).
-/

namespace SealedScript.Artifact
set_option autoImplicit false

open Text (slice? front? behind? unitsAhead? lastByteOf? byteLength unitLength)

/-! ## The reader -/

def lengthAt (text : Text) (start : Nat) : Except TrailerFault Nat :=
  match slice? text start (start + Digest.columns) with
  | none => .error .truncatedLength
  | some raw =>
    match Numeral.readUnsigned? 16 (Text.trim raw) with
    | some n => .ok n
    | none => .error (.badLength raw)

def digestAt (text : Text) (start : Nat) (fault : TrailerFault) : Except TrailerFault Text :=
  match slice? text start (start + Digest.columns) with
  | none => .error fault
  | some digest => .ok digest

/-- The two recorded lengths; the line of them starts at `countsAt`. -/
def readCountsAt (text : Text) (countsAt : Nat) : Guarded TrailerFault (Nat × Nat) := do
  let line ← behind? text (countsAt + 1)
  demand (line.count '\n' = 1) .linesAfterCounts
  let counts ← behind? text countsAt
  demand (countsLead <+: counts) .noCountsField
  let first := countsAt + byteLength countsLead
  let source ← within (lengthAt text first)
  let second := first + Digest.columns + byteLength fieldSeparator
  demand (slice? text (first + Digest.columns) second = some fieldSeparator) .noCountsSeparator
  let block ← within (lengthAt text second)
  return (source, block)

/-- Where the line of digests starts, and the two digests. -/
def readHashesAt (text : Text) (countsAt : Nat) : Guarded TrailerFault (Nat × Text × Text) := do
  let before ← front? text countsAt
  match lastByteOf? ['\n'] before with
  | none => throw .noHashesLine
  | some hashesAt => do
    let line ← behind? text hashesAt
    demand (hashesLead <+: line) .noHashesLine
    let first := hashesAt + byteLength hashesLead
    let sourceDigest ← within (digestAt text first .truncatedSourceDigest)
    let second := first + Digest.columns + byteLength fieldSeparator
    demand (slice? text (first + Digest.columns) second = some fieldSeparator) .noHashesSeparator
    let blockDigest ← within (digestAt text second .truncatedBlockDigest)
    return (hashesAt, sourceDigest, blockDigest)

/-- The block that ends at `hashesAt`. That it ends there is no matter of a fault. -/
def cutBlockAt (text : Text) (hashesAt length : Nat) : Guarded TrailerFault Text := do
  let units ← unitsAhead? text hashesAt
  match minus? (units + 1) length with
  | none => throw .blockBeforeStart
  | some start =>
    match Text.byteOfUnit? text start with
    | none => throw .blockSplitsCharacter
    | some start => liftM (slice? text start hashesAt)

def cutSourceAt (text : Text) (length : Nat) : Guarded TrailerFault (Text × Bool) :=
  match Text.floorByteOfUnit? text length with
  | none => throw .sourceExceeds
  | some stop => do
    let source ← front? text stop
    let units ← unitsAhead? text stop
    return (source, units != length)

/-- The trailer of a text whose last line of lengths starts at `countsAt`, and where its line of digests starts. -/
def readTrailerAt (text : Text) (countsAt : Nat) : Guarded TrailerFault (Trailer × Nat) := do
  let (sourceLength, blockLength) ← readCountsAt text countsAt
  within (checkCounts sourceLength blockLength (unitLength text))
  let (hashesAt, sourceDigest, blockDigest) ← readHashesAt text countsAt
  let head ← front? text hashesAt
  let block ← cutBlockAt text hashesAt blockLength
  let (source, split) ← cutSourceAt text sourceLength
  return ({ head, source, split, block, sourceDigest, blockDigest }, hashesAt)

variable {a before counts fields head rest text : Text} {t : Trailer} {n length : Nat}

/-! ## Fields -/

theorem readLength_rest (h : readLength fields = .ok (n, rest)) :
    ∃ raw, fields = raw ++ rest ∧ byteLength raw = Digest.columns := by
  unfold readLength at h
  split at h
  case h_1 => cases h
  case h_2 raw rest' hsplit =>
    split at h
    case h_1 =>
      cases h
      exact ⟨raw, Text.splitBytes?_eq_some hsplit⟩
    case h_2 => cases h

theorem lengthAt_eq (a fields : Text) : lengthAt (a ++ fields) (byteLength a) = (readLength fields).map Prod.fst := by
  rw [lengthAt, Text.slice?_behind, readLength]
  cases Text.splitBytes? Digest.columns fields with
  | none => rfl
  | some parts =>
    obtain ⟨raw, rest⟩ := parts
    simp only [Option.map_some]
    cases Numeral.readUnsigned? 16 (Text.trim raw) <;> rfl

theorem digestAt_eq (a t : Text) (fault : TrailerFault) : digestAt (a ++ t) (byteLength a) fault =
    match Text.splitBytes? Digest.columns t with
    | none => .error fault
    | some (digest, _) => .ok digest := by
  rw [digestAt, Text.slice?_behind]
  cases Text.splitBytes? Digest.columns t <;> rfl

/-! ## Lines -/

/-- A lead that is demanded at its place is the one that is dropped there. -/
theorem demand_lead {β : Type} {p : Prop} [Decidable p] {lead t : Text} {fault : TrailerFault}
    {x : Except TrailerFault β} {f : Unit → Guarded TrailerFault β} (hp : p ↔ lead <+: t)
    (hyes : ∀ rest, t = lead ++ rest → f () = within x) (hno : Text.dropLead? lead t = none → x = .error fault) :
    (demand p fault >>= f) = within x := by
  refine demand_eq_within (fun h => ?_) fun h => hno (Text.dropLead?_eq_none (mt hp.mpr h))
  obtain ⟨rest, rfl⟩ := hp.mp h
  exact hyes rest rfl

theorem readCountsAt_eq (hmark : countsMark <+: counts) :
    readCountsAt (before ++ counts) (byteLength before) = within (readCounts counts) := by
  have hcounts : behind? (before ++ counts) (byteLength before) = some counts := Text.behind?_append _ _
  have hline : behind? (before ++ counts) (byteLength before + 1) = some (counts.drop 1) := by
    obtain ⟨rest, rfl⟩ := hmark
    have h := Text.behind?_append (before ++ ['\n']) ("##:COUNTS:".toList ++ rest)
    rw [Text.byteLength_append, List.append_assoc] at h
    rw [countsMark_eq]
    exact h
  simp only [readCountsAt, hcounts, hline, lift_some_bind, readCounts]
  refine demand_eq_within (fun hone => ?_) fun hmore => by rw [if_pos hmore]; rfl
  rw [if_neg (fun hmore => hmore hone)]
  refine demand_lead Iff.rfl (fun fields hfields => ?_) fun hno => by rw [hno]; rfl
  subst hfields
  have hfirst := lengthAt_eq (before ++ countsLead) fields
  rw [List.append_assoc, Text.byteLength_append] at hfirst
  rw [Text.dropLead?_append]
  refine bind_eq_within (congrArg within hfirst) fun read hsource => ?_
  obtain ⟨source, rest⟩ := read
  obtain ⟨raw, rfl, hraw⟩ := readLength_rest hsource
  -- The place behind the first length is the end of a front that is one field longer.
  have hbehind : before ++ (countsLead ++ (raw ++ rest)) = (before ++ countsLead ++ raw) ++ rest := by simp
  have hplace : byteLength before + byteLength countsLead + Digest.columns =
      byteLength (before ++ countsLead ++ raw) := by simp [hraw, Nat.add_assoc]
  rw [hbehind, hplace]
  refine demand_lead Text.slice?_eq_lead (fun last hlast => ?_) fun hno => by rw [hno]; rfl
  subst hlast
  have hsecond := lengthAt_eq (before ++ countsLead ++ raw ++ fieldSeparator) last
  rw [List.append_assoc _ fieldSeparator, Text.byteLength_append _ fieldSeparator] at hsecond
  rw [Text.dropLead?_append]
  exact bind_eq_within (congrArg within hsecond) fun _ _ => rfl

theorem readHashesAt_eq (before counts : Text) : readHashesAt (before ++ counts) (byteLength before) =
    within ((readHashes before counts).map fun (head, digests) => (byteLength head, digests)) := by
  rw [readHashesAt, Text.front?_append, lift_some_bind, readHashes, lastByteOf?]
  cases hstart : Text.lastIndexOf? ['\n'] before with
  | none => rfl
  | some start =>
    have hsplit : before ++ counts = before.take start ++ (before.drop start ++ counts) := by
      rw [← List.append_assoc, List.take_append_drop]
    simp only [Option.map_some, List.splitAt_eq, hsplit]
    generalize before.take start = head, before.drop start ++ counts = line
    rw [Text.behind?_append, lift_some_bind]
    refine demand_lead Iff.rfl (fun fields hfields => ?_) fun hno => by rw [hno]; rfl
    subst hfields
    rw [← List.append_assoc, ← Text.byteLength_append, digestAt_eq, Text.dropLead?_append]
    cases hsource : Text.splitBytes? Digest.columns fields with
    | none =>
      simp only [hsource]
      rfl
    | some parts =>
      obtain ⟨sourceDigest, rest⟩ := parts
      obtain ⟨rfl, hcolumns⟩ := Text.splitBytes?_eq_some hsource
      have hplace : byteLength (head ++ hashesLead) + Digest.columns =
          byteLength (head ++ hashesLead ++ sourceDigest) := by rw [Text.byteLength_append _ sourceDigest, hcolumns]
      simp only [within_ok_bind, hsource, hplace, ← List.append_assoc]
      refine demand_lead Text.slice?_eq_lead (fun last hlast => ?_) fun hno => by rw [hno]; rfl
      subst hlast
      rw [← List.append_assoc, ← Text.byteLength_append, digestAt_eq, Text.dropLead?_append]
      cases hblock : Text.splitBytes? Digest.columns last <;> simp only [hblock] <;> rfl

/-! ## Cuts -/

theorem cutBlockAt_eq (head rest : Text) (hlength : length ≠ 0) :
    cutBlockAt (head ++ rest) (byteLength head) length = within (cutBlock head length) := by
  rw [cutBlockAt, cutBlock, Text.unitsAhead?_of_front (List.prefix_append head rest), lift_some_bind]
  simp only
  by_cases hlt : unitLength head + 1 < length
  · rw [minus?_of_lt hlt, if_pos hlt]
    rfl
  · rw [minus?_of_le (Nat.le_of_not_lt hlt), if_neg hlt]
    have hindex : Text.unitIndex? (head ++ rest) (unitLength head + 1 - length) =
        Text.unitIndex? head (unitLength head + 1 - length) :=
      Text.indexAt_front rest (show _ ≤ unitLength head by omega)
    simp only [Text.byteOfUnit?, hindex]
    cases hstart : Text.unitIndex? head (unitLength head + 1 - length) with
    | none => rfl
    | some start =>
      have hle := Text.indexAt_le hstart
      have hfront : (head ++ rest).take start = head.take start := List.take_append_of_le_length (by omega)
      have hslice := Text.slice?_append (head.take start) (head.drop start) rest
      rw [← List.append_assoc, ← Text.byteLength_append, List.take_append_drop] at hslice
      simp only [Option.map_some, hfront, hslice]
      rfl

theorem cutSourceAt_eq (text : Text) (length : Nat) : cutSourceAt text length = within (cutSource text length) := by
  rw [cutSourceAt, cutSource, Text.floorByteOfUnit?]
  cases Text.floorUnitIndex? text length with
  | none => rfl
  | some stop =>
    rw [Option.map_some]
    have hfront := List.take_prefix stop text
    simp only [Text.front?_of_front hfront, Text.unitsAhead?_of_front hfront, lift_some_bind]
    rfl

/-- The line of digests starts in front of the line of lengths. -/
theorem readHashes_front {digests : Text × Text} (h : readHashes before counts = .ok (head, digests)) :
    ∃ line, before = head ++ line := by
  obtain ⟨start, -, rfl, -⟩ := readHashes_spec h
  exact ⟨before.drop start, (List.take_append_drop start before).symm⟩

theorem checkCounts_length {source block total : Nat} (h : checkCounts source block total = .ok ()) : block ≠ 0 := by
  rintro rfl
  cases h

theorem readTrailerAt_eq (hmark : countsMark <+: counts) :
    readTrailerAt (before ++ counts) (byteLength before) =
      within ((fun t => (t, byteLength t.head)) <$> readTrailer before counts) := by
  simp only [readTrailerAt, readTrailer, map_bind, map_pure, readCountsAt_eq hmark]
  refine within_bind_eq fun lengths _ => within_bind_eq fun _ hcheck => ?_
  refine bind_eq_within (readHashesAt_eq before counts) fun read hhashes => ?_
  obtain ⟨head, digests⟩ := read
  obtain ⟨line, rfl⟩ := readHashes_front hhashes
  simp only [List.append_assoc, Text.front?_append, lift_some_bind,
    cutBlockAt_eq head (line ++ counts) (checkCounts_length hcheck), cutSourceAt_eq]
  exact within_bind_eq fun block _ => within_bind_eq fun source _ => rfl

end SealedScript.Artifact
