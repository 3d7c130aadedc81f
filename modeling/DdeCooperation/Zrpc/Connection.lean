import DdeCooperation.Foundations.Batches
import DdeCooperation.Zrpc.Codec

/-!
# A server connection of the legacy RPC

The server receives until a call gives less than it asked for, executes what it has gathered,
and clears its buffer. So the stream is cut into batches, and each of them is decoded for
itself: a package that is not complete at the end of a batch is dropped with the buffer.

The stream reaches the connection in segments, and each call to `recv` gives what is left of
the first of them. After the last segment the peer closes the connection, or the call fails
when the time is over.
-/

namespace DdeCooperation.Zrpc

open Foundations List TcpBuffer

inductive Ending where
  | closed
  | failed
  deriving DecidableEq

/-- What a call to `recv` gives: some bytes, with the segments that are left, zero, or less. -/
inductive Received where
  | bytes (data : Bytes) (rest : List Bytes)
  | nothing
  | failed

namespace TcpConnection

def PERPKG_MAX_LEN : ℕ := 16 * 1024

def recv (ending : Ending) (len : ℕ) : List Bytes → Received
  | [] =>
    match ending with
    | .closed => .nothing
    | .failed => .failed
  | [] :: rest => recv ending len rest
  | (first :: segment) :: rest =>
    if len = 0 then .nothing
    else if (first :: segment).length ≤ len then .bytes (first :: segment) rest
    else .bytes ((first :: segment).take len) ((first :: segment).drop len :: rest)

variable {ending : Ending} {len : ℕ} {segments rest : List Bytes} {data : Bytes}

theorem recv_flatten (h : recv ending len segments = .bytes data rest) :
    data ≠ [] ∧ segments.flatten = data ++ rest.flatten := by
  fun_induction recv ending len segments with
  | case1 => cases h
  | case2 => cases h
  | case3 rest' ih => exact ih h
  | case4 => cases h
  | case5 first segment rest' hlen hle =>
    cases h
    exact ⟨cons_ne_nil _ _, rfl⟩
  | case6 first segment rest' hlen hle =>
    cases h
    constructor
    · rw [ne_eq, take_eq_nil_iff, not_or]
      exact ⟨hlen, cons_ne_nil _ _⟩
    · rw [flatten_cons, flatten_cons, ← append_assoc, take_append_drop]

theorem recv_length (h : recv ending len segments = .bytes data rest) :
    0 < data.length ∧ segments.flatten.length = data.length + rest.flatten.length := by
  obtain ⟨hne, hflatten⟩ := recv_flatten h
  rw [hflatten, length_append]
  exact ⟨length_pos_iff.mpr hne, rfl⟩

/-- A full buffer grows before the next call. -/
def room (buf : TcpBuffer) : Option TcpBuffer :=
  if buf.writeAble = 0 then buf.resizeBuffer (buf.getSize + PERPKG_MAX_LEN) else some buf

/-- The buffer with what has been gathered and the segments that are left; `some none` if the
connection is closed instead. -/
def input (ending : Ending) (count : ℕ) (buf : TcpBuffer) (segments : List Bytes) :
    Option (Option (TcpBuffer × List Bytes)) :=
  match room buf with
  | none => none
  | some buf =>
    let readCount := min buf.writeAble PERPKG_MAX_LEN
    match hrecv : recv ending readCount segments with
    | .failed => some none
    | .nothing => if count = 0 then some none else some (some (buf, segments))
    | .bytes data rest =>
      have := recv_length hrecv
      let buf := (buf.store data).recycleWrite data.length
      if data.length = readCount then input ending (count + data.length) buf rest
      else some (some (buf, rest))
termination_by segments.flatten.length
decreasing_by omega

/-- The packages that are dispatched from the buffer. -/
def execute (buf : TcpBuffer) : Option (List SpecDataStruct) :=
  if buf.readAble > 0 then
    match hdecode : ZRpcCodeC.decode buf with
    | none => none
    | some (_, none) => some []
    | some (buf', some data) =>
      have := ZRpcCodeC.readAble_decode hdecode
      (execute buf').map (data :: ·)
  else some []
termination_by buf.readAble

theorem input_shorter {count : ℕ} {buf buf' : TcpBuffer}
    (h : input ending count buf segments = some (some (buf', rest))) :
    rest.flatten.length < segments.flatten.length + count := by
  fun_induction input ending count buf segments with
  | case1 | case2 | case3 => cases h
  | case4 =>
    cases h
    omega
  | case5 _ _ _ _ _ _ _ _ _ hlength _ _ ih =>
    have hnext := ih h
    omega
  | case6 =>
    obtain ⟨-, rfl⟩ := Prod.mk.inj (Option.some.inj (Option.some.inj h))
    omega

/-- What the connection dispatches until it is closed. -/
def mainServerLoop (ending : Ending) (buf : TcpBuffer) (segments : List Bytes) :
    Option (List SpecDataStruct) :=
  match hinput : input ending 0 buf segments with
  | none => none
  | some none => some []
  | some (some (buf, rest)) => do
    have := input_shorter hinput
    let dispatched ← execute buf
    let more ← mainServerLoop ending buf.clearBuffer rest
    return dispatched ++ more
termination_by segments.flatten.length
decreasing_by omega

/-! ## Batches -/

/-- The batches that are executed, and the bytes that are gathered but never executed. A call
for `PERPKG_MAX_LEN` bytes gives fewer at the end of a segment, unless its length is a
multiple of that. -/
def batches (ending : Ending) (gathered : Bytes) : List Bytes → List Bytes × Bytes
  | [] =>
    match ending with
    | .closed => (if gathered = [] then [] else [gathered], [])
    | .failed => ([], gathered)
  | segment :: rest =>
    if segment.length % PERPKG_MAX_LEN = 0 then batches ending (gathered ++ segment) rest
    else
      ((gathered ++ segment) :: (batches ending [] rest).1, (batches ending [] rest).2)

section Batches

variable {ending : Ending} {gathered data : Bytes} {segments rest : List Bytes} {buf : TcpBuffer}

theorem flatten_batches :
    (batches ending gathered segments).1.flatten ++ (batches ending gathered segments).2 =
      gathered ++ segments.flatten := by
  induction segments generalizing gathered with
  | nil =>
    cases ending with
    | closed =>
      rw [batches]
      split_ifs with hnil
      · simp [hnil]
      · simp
    | failed => simp [batches]
  | cons segment segments ih =>
    rw [batches]
    split_ifs
    · rw [ih, flatten_cons, append_assoc]
    · rw [flatten_cons, append_assoc, ih, nil_append, flatten_cons,
        append_assoc]

theorem batches_nil_cons : batches ending gathered ([] :: segments) = batches ending gathered segments := by
  have hzero : ([] : Bytes).length % PERPKG_MAX_LEN = 0 := rfl
  rw [batches, if_pos hzero, append_nil]

/-- The segments that `recv` passes over do not matter. -/
theorem batches_of_recv_end (h : recv ending PERPKG_MAX_LEN segments = .nothing ∨
    recv ending PERPKG_MAX_LEN segments = .failed) :
    segments.flatten = [] ∧ batches ending gathered segments = batches ending gathered [] ∧
      (recv ending PERPKG_MAX_LEN segments = .failed ↔ ending = .failed) := by
  induction segments with
  | nil =>
    cases ending with
    | closed | failed => exact ⟨rfl, rfl, by simp [recv]⟩
  | cons segment segments ih =>
    cases segment with
    | nil =>
      obtain ⟨hflatten, hbatches, hfailed⟩ := ih h
      refine ⟨by simpa using hflatten, ?_, hfailed⟩
      rw [batches_nil_cons, hbatches]
    | cons first segment =>
      have hne : PERPKG_MAX_LEN ≠ 0 := by decide
      rw [recv, if_neg hne] at h
      split_ifs at h
      · rcases h with h | h <;> cases h
      · rcases h with h | h <;> cases h

/-- The bytes that `recv` gives go into the batch, which ends if they are fewer than asked for. -/
theorem batches_of_recv (h : recv ending PERPKG_MAX_LEN segments = .bytes data rest) :
    data.length ≤ PERPKG_MAX_LEN ∧ batches ending gathered segments =
      if data.length = PERPKG_MAX_LEN then batches ending (gathered ++ data) rest
      else ((gathered ++ data) :: (batches ending [] rest).1, (batches ending [] rest).2) := by
  induction segments with
  | nil => cases ending <;> cases h
  | cons segment segments ih =>
    cases segment with
    | nil =>
      obtain ⟨hle, hbatches⟩ := ih h
      rw [batches_nil_cons]
      exact ⟨hle, hbatches⟩
    | cons first segment =>
      have hne : PERPKG_MAX_LEN ≠ 0 := by decide
      have hpos : 0 < (first :: segment).length := Nat.succ_pos _
      rw [recv, if_neg hne] at h
      split_ifs at h with hlong
      · cases h
        refine ⟨hlong, ?_⟩
        have hmod : (first :: segment).length % PERPKG_MAX_LEN = 0 ↔
            (first :: segment).length = PERPKG_MAX_LEN := by
          rcases Nat.lt_or_eq_of_le hlong with hlt | heq
          · rw [Nat.mod_eq_of_lt hlt]
            omega
          · rw [heq, Nat.mod_self]
            simp
        rw [batches]
        simp only [hmod]
      · cases h
        have htake : ((first :: segment).take PERPKG_MAX_LEN).length = PERPKG_MAX_LEN := by
          rw [length_take]
          omega
        have hmod : ((first :: segment).drop PERPKG_MAX_LEN).length % PERPKG_MAX_LEN =
            (first :: segment).length % PERPKG_MAX_LEN := by
          rw [length_drop]
          exact (Nat.mod_eq_sub_mod (by omega)).symm
        refine ⟨htake.le, ?_⟩
        rw [if_pos htake, batches, batches, hmod, append_assoc, take_append_drop]

/-- Between two calls: what has been gathered can be read, from the beginning of the vector, and
the buffer is full or has room for one call. -/
structure Gathers (buf : TcpBuffer) (gathered : Bytes) : Prop where
  valid : buf.Valid
  start : buf.readIndex = 0
  readable : buf.readable = gathered
  space : buf.writeAble = 0 ∨ buf.writeAble = PERPKG_MAX_LEN

theorem Gathers.writeIndex (h : Gathers buf gathered) : buf.writeIndex = gathered.length := by
  have hlength := length_readable h.valid
  rw [h.readable, readAble, h.start] at hlength
  exact hlength.symm

theorem Gathers.room (h : Gathers buf gathered) (hlimit : gathered.length + PERPKG_MAX_LEN < 2 ^ 31) :
    ∃ buf', room buf = some buf' ∧ Gathers buf' gathered ∧ buf'.writeAble = PERPKG_MAX_LEN := by
  rw [TcpConnection.room]
  split_ifs with hfull
  · have hwrite := h.valid.write
    have hindex := h.writeIndex
    have hreadAble : buf.readAble = buf.writeIndex := by rw [readAble, h.start, Nat.sub_zero]
    rw [writeAble] at hfull
    obtain ⟨buf', hgrown, hvalid, hreadable, hlength, hstart, hnew⟩ :=
      resizeBuffer_spec h.valid (show buf.readAble ≤ buf.getSize + PERPKG_MAX_LEN by
        rw [hreadAble, getSize]; omega) (by rw [getSize]; omega)
    have hspace : buf'.writeAble = PERPKG_MAX_LEN := by
      rw [writeAble, hlength, hnew, hreadAble, getSize]
      omega
    exact ⟨buf', hgrown, ⟨hvalid, hstart, hreadable.trans h.readable, .inr hspace⟩, hspace⟩
  · exact ⟨buf, rfl, h, h.space.resolve_left hfull⟩

theorem Gathers.recycleWrite (h : Gathers buf gathered) (hspace : buf.writeAble = PERPKG_MAX_LEN)
    (hdata : data.length ≤ PERPKG_MAX_LEN) :
    ((buf.store data).recycleWrite data.length).Valid ∧
      ((buf.store data).recycleWrite data.length).readable = gathered ++ data ∧
      ((buf.store data).recycleWrite data.length).readIndex = 0 ∧
      (data.length = PERPKG_MAX_LEN →
        Gathers ((buf.store data).recycleWrite data.length) (gathered ++ data)) := by
  obtain ⟨hvalid, hreadable⟩ := recycleWrite_store_spec h.valid (hspace ▸ hdata)
  rw [h.readable] at hreadable
  have hlength := (store_spec h.valid (hspace ▸ hdata)).1
  have hwrite := h.valid.write
  rw [writeAble] at hspace
  have heq : (buf.store data).recycleWrite data.length =
      { buf.store data with writeIndex := buf.writeIndex + data.length } := by
    have hle : ¬ (buf.store data).writeIndex + data.length > (buf.store data).buffer.length := by
      rw [hlength]
      change ¬ buf.writeIndex + data.length > _
      omega
    have hstart : ¬ (buf.store data).readIndex > (buf.store data).buffer.length / 3 := by
      change ¬ buf.readIndex > _
      rw [h.start]
      exact Nat.not_lt_zero _
    rw [TcpBuffer.recycleWrite, if_neg hle, TcpBuffer.adjustBuffer, if_neg hstart]
    rfl
  have hstart : ((buf.store data).recycleWrite data.length).readIndex = 0 := by
    rw [heq]
    exact h.start
  refine ⟨hvalid, hreadable, hstart, fun hfull ↦ ⟨hvalid, hstart, hreadable, .inl ?_⟩⟩
  rw [heq, writeAble]
  dsimp only
  rw [hlength]
  omega

/-- The batch that is gathered next, if there is one. -/
theorem input_spec (ending : Ending) (segments : List Bytes) (h : Gathers buf gathered)
    (hlimit : gathered.length + segments.flatten.length + PERPKG_MAX_LEN < 2 ^ 31) :
    (input ending gathered.length buf segments = some none ∧
      (batches ending gathered segments).1 = []) ∨
    ∃ buf' rest, input ending gathered.length buf segments = some (some (buf', rest)) ∧
      buf'.Valid ∧ buf'.readIndex = 0 ∧
      batches ending gathered segments =
        (buf'.readable :: (batches ending [] rest).1, (batches ending [] rest).2) := by
  induction hn : segments.flatten.length using Nat.strong_induction_on
    generalizing gathered buf segments with
  | _ n ih =>
    obtain ⟨grown, hgrown, hroom, hspace⟩ := h.room (by omega)
    have hcount : min grown.writeAble PERPKG_MAX_LEN = PERPKG_MAX_LEN := by
      rw [hspace, Nat.min_self]
    rw [input, hgrown]
    dsimp only
    split
    · next hrecv =>
      rw [hcount] at hrecv
      obtain ⟨-, hbatches, hfailed⟩ := batches_of_recv_end (.inr hrecv)
      left
      rw [hbatches, hfailed.mp hrecv]
      exact ⟨rfl, rfl⟩
    · next hrecv =>
      rw [hcount] at hrecv
      obtain ⟨-, hbatches, hfailed⟩ := batches_of_recv_end (.inl hrecv)
      have hclosed : ending = .closed := by
        cases ending with
        | closed => rfl
        | failed =>
          rw [hfailed.mpr rfl] at hrecv
          cases hrecv
      subst hclosed
      split_ifs with hzero
      · left
        rw [hbatches, length_eq_zero_iff.mp hzero]
        exact ⟨rfl, rfl⟩
      · right
        refine ⟨_, _, rfl, hroom.valid, hroom.start, ?_⟩
        have hne : gathered ≠ [] := fun hnil ↦ hzero (by rw [hnil]; rfl)
        have hlater : batches .closed [] segments = batches .closed [] [] :=
          (batches_of_recv_end (.inl hrecv)).2.1
        rw [hbatches, hlater, hroom.readable, batches, if_neg hne]
        rfl
    · next data rest hrecv =>
      have hlength := (recv_length hrecv)
      rw [hcount] at hrecv ⊢
      obtain ⟨hdata, hbatches⟩ := batches_of_recv hrecv
      obtain ⟨hvalid, hreadable, hstart, hfull⟩ := hroom.recycleWrite hspace hdata
      split_ifs with hmore
      · rw [hbatches, if_pos hmore, ← length_append]
        exact ih rest.flatten.length (by omega) rest (hfull hmore) (by rw [length_append]; omega) rfl
      · right
        refine ⟨_, _, rfl, hvalid, hstart, ?_⟩
        rw [hbatches, if_neg hmore, hreadable]

theorem writeIndex_of_start (hvalid : buf.Valid) (hstart : buf.readIndex = 0) :
    buf.writeIndex = buf.readable.length := by
  rw [length_readable hvalid, readAble, hstart, Nat.sub_zero]

/-- What the connection dispatches is what it executes of each batch. -/
theorem mainServerLoop_spec (ending : Ending) (segments : List Bytes) (h : Gathers buf [])
    (hlimit : segments.flatten.length + PERPKG_MAX_LEN < 2 ^ 31) :
    ∃ bufs : List TcpBuffer, bufs.map readable = (batches ending [] segments).1 ∧
      (∀ b ∈ bufs, b.Valid ∧ b.writeIndex = b.readable.length) ∧
      mainServerLoop ending buf segments = (bufs.mapM execute).map List.flatten := by
  induction hn : segments.flatten.length using Nat.strong_induction_on generalizing buf segments with
  | _ n ih =>
    rcases input_spec ending segments h (by rwa [length_nil, Nat.zero_add]) with
      ⟨hinput, hbatches⟩ | ⟨buf', rest, hinput, hvalid, hstart, hbatches⟩
    · refine ⟨[], hbatches.symm, by simp, ?_⟩
      rw [length_nil] at hinput
      rw [mainServerLoop]
      split
      · next heq =>
        rw [hinput] at heq
        cases heq
      · rfl
      · next heq =>
        rw [hinput] at heq
        cases heq
    · have hless := input_shorter hinput
      have hcleared : Gathers buf'.clearBuffer [] := ⟨valid_clearBuffer _, rfl, rfl, .inl rfl⟩
      rw [length_nil] at hinput hless
      obtain ⟨bufs, hbufs, hall, hloop⟩ := ih rest.flatten.length (by omega) rest hcleared (by omega) rfl
      refine ⟨buf' :: bufs, ?_, ?_, ?_⟩
      · rw [hbatches, map_cons, hbufs]
      · rw [forall_mem_cons]
        exact ⟨⟨hvalid, writeIndex_of_start hvalid hstart⟩, hall⟩
      · rw [mainServerLoop]
        split
        · next heq =>
          rw [hinput] at heq
          cases heq
        · next heq =>
          rw [hinput] at heq
          cases heq
        · next heq =>
          rw [hinput] at heq
          cases heq
          rw [hloop, mapM_cons]
          rcases execute buf' with _ | dispatched
          · rfl
          · rcases bufs.mapM execute with _ | groups
            · rfl
            · rfl

end Batches

/-! ## Executing a batch -/

section Execute

variable {buf : TcpBuffer} {group : List SpecDataStruct}

/-- A buffer with whole packages: all of them are dispatched. -/
theorem execute_wire (hvalid : buf.Valid) (hlimit : buf.writeIndex < 2 ^ 31)
    (hgroup : ∀ data ∈ group, ZRpcCodeC.WellFormed data ∧ data.msgReq ≠ [])
    (hread : buf.readable = group.flatMap ZRpcCodeC.wire) :
    execute buf = some (group.map ZRpcCodeC.received) := by
  induction group generalizing buf with
  | nil =>
    have hnone : ¬ buf.readAble > 0 := by
      rw [← length_readable hvalid, hread]
      exact Nat.not_lt_zero _
    rw [execute, if_neg hnone]
    rfl
  | cons data group ih =>
    rw [forall_mem_cons] at hgroup
    rw [flatMap_cons] at hread
    obtain ⟨buf', hdecode, hvalid', hread', hindex⟩ :=
      ZRpcCodeC.decode_wire hvalid hlimit hgroup.1.1 hgroup.1.2 hread
    have hless := ZRpcCodeC.readAble_decode hdecode
    have hnext := ih hvalid' (by omega) hgroup.2 hread'
    rw [execute, if_pos (by omega)]
    split
    · next heq =>
      rw [hdecode] at heq
      cases heq
    · next heq =>
      rw [hdecode] at heq
      cases heq
    · next heq =>
      rw [hdecode] at heq
      cases heq
      rw [hnext]
      rfl

/-- The dispatched packages are not longer than what could be read. -/
theorem execute_length (hvalid : buf.Valid) (h : execute buf = some group) :
    (group.flatMap ZRpcCodeC.wire).length ≤ buf.readable.length := by
  fun_induction execute buf generalizing group with
  | case1 => cases h
  | case2 =>
    cases h
    exact Nat.zero_le _
  | case3 buf _ buf' data hdecode _ ih =>
    obtain ⟨others, hothers, rfl⟩ := Option.map_eq_some_iff.mp h
    obtain ⟨hvalid', hlength⟩ := ZRpcCodeC.decode_length hvalid hdecode
    have hrest := ih hvalid' hothers
    rw [flatMap_cons, length_append]
    omega
  | case4 =>
    cases h
    exact Nat.zero_le _

end Execute

end TcpConnection

end DdeCooperation.Zrpc
