import DdeCooperation.Zrpc.Connection

/-!
# Streams of packages

A client encodes packages one after the other, and the stream reaches the server in segments.
The server dispatches these packages, in their order and each once, if and only if every
segment ends where a package ends, unless its length is a multiple of what one call asks for,
and the peer closes the connection behind a last segment of such a length.
-/

namespace DdeCooperation.Zrpc

open Foundations TcpConnection ZRpcCodeC List TcpBuffer

/-- A package to be sent, and the number it gets if it has none. -/
abbrev Outgoing := Bytes × SpecDataStruct

/-- The packages in the buffer of the client. -/
def encodeAll (packages : List Outgoing) (buf : TcpBuffer) : Option TcpBuffer :=
  packages.foldlM (fun buf package ↦ (encode package.1 buf package.2).map Prod.fst) buf

/-- The package as it has been completed for sending. -/
def completed (package : Outgoing) : SpecDataStruct := numbered package.1 package.2

/-- A package that is well formed; a generated number has eight characters. -/
structure Sendable (package : Outgoing) : Prop where
  wellFormed : WellFormed package.2
  number : package.1.length = 8 ∧ 0 ∉ package.1

theorem Sendable.completed {package : Outgoing} (h : Sendable package) :
    WellFormed (completed package) ∧ (completed package).msgReq ≠ [] := by
  rw [Zrpc.completed, numbered]
  split_ifs with hnone
  · refine ⟨⟨h.wellFormed.service, ⟨?_, h.number.2⟩, h.wellFormed.serviceFullName,
      h.wellFormed.errInfo⟩, ?_⟩
    · dsimp only
      rw [h.number.1]
      decide
    · intro hnil
      have hlength := h.number.1
      rw [show package.1 = [] from hnil] at hlength
      cases hlength
  · exact ⟨h.wellFormed, hnone⟩

theorem flatMap_wire_received (packages : List SpecDataStruct) :
    (packages.map received).flatMap wire = packages.flatMap wire := by
  rw [flatMap_map]
  rfl

theorem whole_received {packages : List SpecDataStruct} {bytes : Bytes} :
    Whole wire (packages.map received) bytes ↔ Whole wire packages bytes := by
  simp only [Whole, ← map_take, flatMap_wire_received]

/-- The bytes that the packages make up. -/
def stream (packages : List Outgoing) : Bytes := packages.flatMap (wire ∘ completed)

theorem encodeAll_spec {packages : List Outgoing} (h : ∀ package ∈ packages, Sendable package)
    {buf : TcpBuffer} (hvalid : buf.Valid)
    (hlimit : 3 * (buf.writeIndex + (stream packages).length) / 2 < 2 ^ 31) :
    ∃ buf', encodeAll packages buf = some buf' ∧ buf'.readable = buf.readable ++ stream packages := by
  induction packages generalizing buf with
  | nil => exact ⟨buf, rfl, (append_nil _).symm⟩
  | cons package packages ih =>
    rw [forall_mem_cons] at h
    have hstream : stream (package :: packages) = wire (completed package) ++ stream packages := rfl
    rw [hstream, length_append] at hlimit
    have hfits : buf.Fits (wire (completed package)) := fun _ ↦ by omega
    obtain ⟨next, hwrite, hvalid', hreadable, hindex⟩ := writeToBuffer_spec hvalid hfits
    obtain ⟨buf', hrest, hread⟩ := ih h.2 hvalid' (by omega)
    have hencode : (encode package.1 buf package.2).map Prod.fst = some next := by
      rw [encode, encodePbData, if_neg h.1.wellFormed.service]
      dsimp only
      rw [show wire (numbered package.1 package.2) = wire (completed package) from rfl, hwrite]
      rfl
    refine ⟨buf', ?_, ?_⟩
    · rw [encodeAll, foldlM_cons, hencode]
      exact hrest
    · rw [hread, hreadable, hstream, append_assoc]

/-! ## Where the stream is cut -/

/-- The segments that end a batch end with a package, and no bytes are left waiting. -/
structure Aligned (packages : List SpecDataStruct) (segments : List Bytes) (ending : Ending) : Prop where
  cuts : ∀ done segment rest, segments = done ++ segment :: rest →
    segment.length % PERPKG_MAX_LEN ≠ 0 → Whole wire packages (done ++ [segment]).flatten
  last : ending = .failed → ∀ segment ∈ segments.getLast?, segment.length % PERPKG_MAX_LEN ≠ 0

section Cuts

variable {ending : Ending} {before gathered : Bytes} {segments : List Bytes}

/-- A property of the stream at the ends of the batches, said about the segments. -/
theorem batches_prefixes_iff {P : Bytes → Prop} (hbefore : P before)
    (hall : ending = .closed → P (before ++ gathered ++ segments.flatten)) :
    (∀ done rest, (batches ending gathered segments).1 = done ++ rest → P (before ++ done.flatten)) ↔
      ∀ done segment rest, segments = done ++ segment :: rest →
        segment.length % PERPKG_MAX_LEN ≠ 0 → P (before ++ gathered ++ (done ++ [segment]).flatten) := by
  induction segments generalizing before gathered with
  | nil =>
    refine iff_of_true ?_ fun done segment rest heq ↦ by simp at heq
    intro done rest heq
    have hcases : done = [] ∨ ending = .closed ∧ done = [gathered] := by
      cases ending with
      | closed =>
        rw [batches] at heq
        split_ifs at heq
        · exact .inl (append_eq_nil_iff.mp heq.symm).1
        · rcases append_eq_singleton_iff.mp heq.symm with ⟨hdone, -⟩ | ⟨hdone, -⟩
          · exact .inl hdone
          · exact .inr ⟨rfl, hdone⟩
      | failed => exact .inl (append_eq_nil_iff.mp heq.symm).1
    rcases hcases with rfl | ⟨hclosed, rfl⟩
    · simpa using hbefore
    · simpa using hall hclosed
  | cons segment segments ih =>
    rw [batches]
    split_ifs with hmultiple
    · -- The batch goes on after the segment.
      rw [ih hbefore (by simpa using hall)]
      constructor
      · intro hcuts done last rest heq hlast
        cases done with
        | nil =>
          obtain ⟨rfl, -⟩ := cons.inj heq
          exact absurd hmultiple hlast
        | cons first done =>
          obtain ⟨rfl, hrest⟩ := cons.inj heq
          simpa using hcuts done last rest hrest hlast
      · intro hcuts done last rest heq hlast
        simpa using hcuts (segment :: done) last rest (by rw [heq]; rfl) hlast
    · have hrest : ending = .closed → P (before ++ (gathered ++ segment) ++ [] ++ segments.flatten) := by
        simpa using hall
      constructor
      · intro hprefixes
        have hfirst : P (before ++ (gathered ++ segment)) := by
          simpa using hprefixes [gathered ++ segment] _ rfl
        have hlater := (ih hfirst hrest).mp fun done rest heq ↦ by
          simpa using hprefixes ((gathered ++ segment) :: done) rest (by dsimp only; rw [heq]; rfl)
        intro done last rest heq hlast
        cases done with
        | nil =>
          obtain ⟨rfl, -⟩ := cons.inj heq
          simpa using hfirst
        | cons first done =>
          obtain ⟨rfl, hrest⟩ := cons.inj heq
          simpa using hlater done last rest hrest hlast
      · intro hcuts
        have hfirst : P (before ++ (gathered ++ segment)) := by
          simpa using hcuts [] segment segments rfl hmultiple
        have hlater := (ih hfirst hrest).mpr fun done last rest heq hlast ↦ by
          simpa using hcuts (segment :: done) last rest (by rw [heq]; rfl) hlast
        intro done rest heq
        cases done with
        | nil => simpa using hbefore
        | cons first done =>
          obtain ⟨rfl, hrest⟩ := cons.inj heq
          simpa using hlater done rest hrest

theorem lost_iff (hne : ∀ segment ∈ segments, segment ≠ []) :
    (batches ending gathered segments).2 = [] ↔
      (ending = .failed → (segments = [] → gathered = []) ∧
        ∀ segment ∈ segments.getLast?, segment.length % PERPKG_MAX_LEN ≠ 0) := by
  induction segments generalizing gathered with
  | nil => cases ending <;> simp [batches]
  | cons segment segments ih =>
    rw [forall_mem_cons] at hne
    rw [batches]
    split_ifs with hmultiple
    · rw [ih hne.2]
      refine forall_congr' fun _ ↦ ?_
      cases segments with
      | nil => simp [hne.1, hmultiple]
      | cons next segments => simp [getLast?_cons_cons]
    · dsimp only
      rw [ih hne.2]
      refine forall_congr' fun _ ↦ ?_
      cases segments with
      | nil => simp [hmultiple]
      | cons next segments => simp [getLast?_cons_cons]

end Cuts

theorem mainServerLoop_iff_aligned {packages : List Outgoing}
    (hpackages : ∀ package ∈ packages, Sendable package) {segments : List Bytes}
    (hsegments : ∀ segment ∈ segments, segment ≠ []) (hstream : segments.flatten = stream packages)
    (hlimit : segments.flatten.length + PERPKG_MAX_LEN < 2 ^ 31) (ending : Ending) :
    mainServerLoop ending (.ofSize PERPKG_MAX_LEN) segments =
        some (packages.map fun package ↦ received (completed package)) ↔
      Aligned (packages.map completed) segments ending := by
  set frames := packages.map completed with hframes
  have hwf : ∀ frame ∈ frames.map received, WellFormed frame ∧ frame.msgReq ≠ [] := by
    intro frame hframe
    obtain ⟨data, hdata, rfl⟩ := mem_map.mp hframe
    obtain ⟨package, hpackage, rfl⟩ := mem_map.mp hdata
    obtain ⟨hwell, hmsg⟩ := (hpackages package hpackage).completed
    exact ⟨{ hwell with }, hmsg⟩
  have hbytes : segments.flatten = (frames.map received).flatMap wire := by
    rw [hstream, flatMap_wire_received, hframes, flatMap_map]
    rfl
  have hstart : Gathers (.ofSize PERPKG_MAX_LEN) [] := by
    refine ⟨valid_ofSize (by decide), rfl, readable_ofSize _, .inr ?_⟩
    simp [writeAble, ofSize]
  obtain ⟨bufs, hbufs, hvalid, hloop⟩ := mainServerLoop_spec ending segments hstart hlimit
  have hflatten : (bufs.map readable).flatten ++ (batches ending [] segments).2 =
      (frames.map received).flatMap wire := by
    rw [hbufs, flatten_batches, nil_append, hbytes]
  have hne : ∀ frame ∈ frames.map received, wire frame ≠ [] := fun frame _ ↦ cons_ne_nil _ _
  have hbound : ∀ buf ∈ bufs, ∀ group, execute buf = some group →
      (group.flatMap wire).length ≤ buf.readable.length :=
    fun buf hbuf group hgroup ↦ execute_length (hvalid buf hbuf).1 hgroup
  have hdecode : ∀ buf ∈ bufs, ∀ group : List SpecDataStruct,
      (∀ frame ∈ group, frame ∈ frames.map received) → buf.readable = group.flatMap wire →
      execute buf = some group := by
    intro buf hbuf group hgroup hread
    have hindex : buf.writeIndex < 2 ^ 31 := by
      obtain ⟨front, back, rfl⟩ := append_of_mem hbuf
      have htotal := congrArg length hflatten
      rw [← hbytes, length_append, map_append, map_cons, flatten_append,
        flatten_cons, length_append, length_append] at htotal
      rw [(hvalid buf hbuf).2]
      omega
    have hsame : group.map received = group := by
      conv_rhs => rw [← map_id group]
      refine map_congr_left fun frame hframe ↦ ?_
      obtain ⟨data, -, rfl⟩ := mem_map.mp (hgroup frame hframe)
      rfl
    rw [execute_wire (hvalid buf hbuf).1 hindex (fun frame hframe ↦ hwf frame (hgroup frame hframe)) hread,
      hsame]
  have htarget : (packages.map fun package ↦ received (completed package)) = frames.map received := by
    rw [hframes, map_map]
    rfl
  have hcuts : (∀ done rest, (batches ending [] segments).1 = done ++ rest →
        Whole wire frames ([] ++ done.flatten)) ↔
      ∀ done segment rest, segments = done ++ segment :: rest → segment.length % PERPKG_MAX_LEN ≠ 0 →
        Whole wire frames ([] ++ [] ++ (done ++ [segment]).flatten) := by
    refine batches_prefixes_iff ⟨0, rfl⟩ fun _ ↦ ⟨frames.length, ?_⟩
    rw [take_length, append_nil, nil_append, hbytes, flatMap_wire_received]
  simp only [nil_append] at hcuts
  rw [hloop, htarget, decoded_iff hne hflatten hbound hdecode, lost_iff hsegments, hbufs]
  simp only [whole_received, hcuts]
  constructor
  · rintro ⟨hlast, hwhole⟩
    exact ⟨hwhole, fun hfailed ↦ (hlast hfailed).2⟩
  · rintro ⟨hwhole, hlast⟩
    exact ⟨fun hfailed ↦ ⟨fun _ ↦ trivial, hlast hfailed⟩, hwhole⟩

/-- The service `a.b`, message `1`, and the data `x`. -/
def ping : Outgoing :=
  (List.replicate 8 48,
    { msgReq := [49], serviceFullName := [97, 46, 98], errCode := 0, errInfo := [], pbData := [120] })

theorem sendable_ping : Sendable ping where
  wellFormed := ⟨by decide, by decide, by decide, by decide⟩
  number := by decide

end DdeCooperation.Zrpc
