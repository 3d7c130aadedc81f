import Mathlib.Data.List.Basic

/-!
# Frames delivered in batches

A stream of frames arrives in batches, and each batch is decoded for itself. If a decoder
never gives more frames than the bytes of its batch can hold, then the decoded frames are
those of the stream only if no byte is lost and every batch consists of whole frames: the
lengths leave no room for anything else.
-/

namespace DdeCooperation.Foundations

open List

variable {Batch Frame β : Type*} {wire : Frame → List β} {frames : List Frame}

/-- The bytes are those of some first frames. -/
def Whole (wire : Frame → List β) (frames : List Frame) (bytes : List β) : Prop :=
  ∃ k, bytes = (frames.take k).flatMap wire

/-- What follows some first frames up to the end of others is made of whole frames. -/
theorem eq_of_take_append {bytes : List β} {k k' : ℕ}
    (h : (frames.take k).flatMap wire ++ bytes = (frames.take k').flatMap wire) :
    bytes = ((frames.drop k).take (k' - k)).flatMap wire := by
  rcases Nat.le_total k k' with hle | hle
  · have htake : frames.take k' = frames.take k ++ (frames.drop k).take (k' - k) := by
      rw [← take_add, Nat.add_sub_cancel' hle]
    rw [htake, flatMap_append] at h
    exact append_cancel_left h
  · have htake : frames.take k = frames.take k' ++ (frames.drop k').take (k - k') := by
      rw [← take_add, Nat.add_sub_cancel' hle]
    rw [htake, flatMap_append, append_assoc] at h
    have hnil := append_eq_nil_iff.mp (self_eq_append_right.mp h.symm)
    rw [hnil.2, Nat.sub_eq_zero_of_le hle]
    rfl

theorem Whole.append {first second : List β} {k : ℕ} (hfirst : first = (frames.take k).flatMap wire)
    (h : Whole wire frames (first ++ second)) : Whole wire (frames.drop k) second := by
  obtain ⟨k', hk'⟩ := h
  rw [hfirst] at hk'
  exact ⟨k' - k, eq_of_take_append hk'⟩

/-- If every initial part of the batches is whole, the frames can be distributed over them. -/
theorem exists_groups (hne : ∀ frame ∈ frames, wire frame ≠ []) {batches : List (List β)}
    (hall : batches.flatten = frames.flatMap wire)
    (hwhole : ∀ done rest, batches = done ++ rest → Whole wire frames done.flatten) :
    ∃ groups : List (List Frame), groups.flatten = frames ∧
      batches = groups.map fun group ↦ group.flatMap wire := by
  induction batches generalizing frames with
  | nil =>
    cases frames with
    | nil => exact ⟨[], rfl, rfl⟩
    | cons frame frames =>
      rw [flatMap_cons] at hall
      exact absurd (append_eq_nil_iff.mp hall.symm).1 (hne frame mem_cons_self)
  | cons batch batches ih =>
    obtain ⟨k, hk⟩ := hwhole [batch] batches rfl
    rw [flatten_singleton] at hk
    have hsplit : frames.flatMap wire =
        (frames.take k).flatMap wire ++ (frames.drop k).flatMap wire := by
      rw [← flatMap_append, take_append_drop]
    have hrest : batches.flatten = (frames.drop k).flatMap wire := by
      rw [flatten_cons, hsplit, hk] at hall
      exact append_cancel_left hall
    have hwhole' : ∀ done rest, batches = done ++ rest → Whole wire (frames.drop k) done.flatten := by
      intro done rest heq
      have hmore := hwhole (batch :: done) rest (by rw [heq, cons_append])
      rw [flatten_cons] at hmore
      exact Whole.append hk hmore
    obtain ⟨groups, hgroups, rfl⟩ :=
      ih (fun frame hframe ↦ hne frame (mem_of_mem_drop hframe)) hrest hwhole'
    refine ⟨frames.take k :: groups, ?_, ?_⟩
    · rw [flatten_cons, hgroups, take_append_drop]
    · rw [map_cons, ← hk]

theorem flatten_groups (groups : List (List Frame)) :
    (groups.map fun group ↦ group.flatMap wire).flatten = groups.flatten.flatMap wire := by
  rw [← flatMap_def, ← flatMap_id, flatMap_assoc]
  rfl

theorem whole_of_groups {groups : List (List Frame)} (hgroups : groups.flatten = frames)
    {done rest : List (List β)} (heq : (groups.map fun group ↦ group.flatMap wire) = done ++ rest) :
    Whole wire frames done.flatten := by
  obtain ⟨first, second, rfl, hfirst, -⟩ := map_eq_append_iff.mp heq
  refine ⟨first.flatten.length, ?_⟩
  rw [← hgroups, flatten_append, take_left, ← hfirst, flatten_groups]

section Decoder

variable {bytes : Batch → List β} {decode : Batch → Option (List Frame)} {batches : List Batch}
  {groups : List (List Frame)} {lost : List β}

theorem length_decoded_le (hbound : ∀ batch ∈ batches, ∀ group, decode batch = some group →
      (group.flatMap wire).length ≤ (bytes batch).length)
    (hmap : batches.mapM decode = some groups) :
    (groups.flatten.flatMap wire).length ≤ (batches.map bytes).flatten.length := by
  induction batches generalizing groups with
  | nil =>
    cases hmap
    exact Nat.le_refl _
  | cons batch batches ih =>
    rw [forall_mem_cons] at hbound
    rw [mapM_cons] at hmap
    obtain ⟨group, hgroup, hmap⟩ := Option.bind_eq_some_iff.mp hmap
    obtain ⟨rest, hrest, hcons⟩ := Option.bind_eq_some_iff.mp hmap
    cases hcons
    have hfirst := hbound.1 group hgroup
    have hsecond := ih hbound.2 hrest
    rw [flatten_cons, flatMap_append, map_cons, flatten_cons, length_append, length_append]
    omega

/-- The decoded groups are exactly what their batches hold. -/
theorem batches_of_decoded (hbound : ∀ batch ∈ batches, ∀ group, decode batch = some group →
      (group.flatMap wire).length ≤ (bytes batch).length)
    (hmap : batches.mapM decode = some groups)
    (hstream : (batches.map bytes).flatten ++ lost = groups.flatten.flatMap wire) :
    lost = [] ∧ batches.map bytes = groups.map fun group ↦ group.flatMap wire := by
  induction batches generalizing groups with
  | nil =>
    cases hmap
    exact ⟨hstream, rfl⟩
  | cons batch batches ih =>
    rw [forall_mem_cons] at hbound
    rw [mapM_cons] at hmap
    obtain ⟨group, hgroup, hmap⟩ := Option.bind_eq_some_iff.mp hmap
    obtain ⟨rest, hrest, hcons⟩ := Option.bind_eq_some_iff.mp hmap
    cases hcons
    have hfirst := hbound.1 group hgroup
    have hsecond := length_decoded_le hbound.2 hrest
    rw [flatten_cons, flatMap_append, map_cons, flatten_cons, append_assoc] at hstream
    -- The later groups leave no room for more than the first batch holds.
    have hlength : (bytes batch).length = (group.flatMap wire).length := by
      have htotal := congrArg length hstream
      rw [length_append, length_append, length_append] at htotal
      omega
    obtain ⟨hbatch, hlater⟩ := append_inj hstream hlength
    obtain ⟨hlost, hbatches⟩ := ih hbound.2 hrest hlater
    exact ⟨hlost, by rw [map_cons, map_cons, hbatch, hbatches]⟩

theorem mapM_of_batches
    (hdecode : ∀ batch ∈ batches, ∀ group ∈ groups, bytes batch = group.flatMap wire →
      decode batch = some group)
    (hbatches : batches.map bytes = groups.map fun group ↦ group.flatMap wire) :
    batches.mapM decode = some groups := by
  induction batches generalizing groups with
  | nil =>
    cases groups with
    | nil => rfl
    | cons group groups => cases hbatches
  | cons batch batches ih =>
    cases groups with
    | nil => cases hbatches
    | cons group groups =>
      rw [map_cons, map_cons, cons.injEq] at hbatches
      have hfirst := hdecode batch mem_cons_self group mem_cons_self hbatches.1
      have hrest := ih (fun other hother found hfound ↦
        hdecode other (mem_cons_of_mem _ hother) found (mem_cons_of_mem _ hfound)) hbatches.2
      rw [mapM_cons, hfirst, hrest]
      rfl

/-- The frames come out as they went in, if and only if nothing is lost and every initial part
of the batches is whole. -/
theorem decoded_iff (hne : ∀ frame ∈ frames, wire frame ≠ [])
    (hstream : (batches.map bytes).flatten ++ lost = frames.flatMap wire)
    (hbound : ∀ batch ∈ batches, ∀ group, decode batch = some group →
      (group.flatMap wire).length ≤ (bytes batch).length)
    (hdecode : ∀ batch ∈ batches, ∀ group : List Frame, (∀ frame ∈ group, frame ∈ frames) →
      bytes batch = group.flatMap wire → decode batch = some group) :
    (batches.mapM decode).map List.flatten = some frames ↔
      lost = [] ∧ ∀ done rest, batches.map bytes = done ++ rest → Whole wire frames done.flatten := by
  constructor
  · intro hsome
    obtain ⟨groups, hmap, rfl⟩ := Option.map_eq_some_iff.mp hsome
    obtain ⟨hlost, hbatches⟩ := batches_of_decoded hbound hmap hstream
    refine ⟨hlost, fun done rest heq ↦ ?_⟩
    rw [hbatches] at heq
    exact whole_of_groups rfl heq
  · rintro ⟨rfl, hwhole⟩
    rw [append_nil] at hstream
    obtain ⟨groups, hgroups, hbatches⟩ := exists_groups hne hstream hwhole
    have hmap : batches.mapM decode = some groups := by
      refine mapM_of_batches (fun batch hbatch group hgroup ↦ ?_) hbatches
      refine hdecode batch hbatch group fun frame hframe ↦ ?_
      rw [← hgroups]
      exact mem_flatten.mpr ⟨group, hgroup, hframe⟩
    rw [hmap, Option.map_some, hgroups]

end Decoder

end DdeCooperation.Foundations
