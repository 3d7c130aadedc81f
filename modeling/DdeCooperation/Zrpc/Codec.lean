import DdeCooperation.Tunnel.Frame
import DdeCooperation.Zrpc.Buffer

/-!
# The packages of the legacy RPC

A package is written between a start and an end byte, with its length behind the start byte.
The decoder looks for a start byte whose length leads to an end byte that has been received,
and then reads the fields one after the other. Where it reads outside of its buffers or throws,
nothing is said about what it does, and the model gives no result.
-/

namespace DdeCooperation.Zrpc

open List Option TcpBuffer

structure SpecDataStruct where
  pkLen : UInt32 := 0
  msgReqLen : UInt32 := 0
  msgReq : Bytes
  serviceNameLen : UInt32 := 0
  serviceFullName : Bytes
  errCode : UInt32
  errInfoLen : UInt32 := 0
  errInfo : Bytes
  pbData : Bytes
  checkNum : ℤ := -1
  deriving DecidableEq

namespace ZRpcCodeC

def PB_START : UInt8 := 0x02

def PB_END : UInt8 := 0x03

def hton32 (value : UInt32) : Bytes := Tunnel.appendU32 [] value

/-- Four bytes of a vector. -/
def netByteToInt32 (tmp : Bytes) (index : ℕ) : Option UInt32 := Tunnel.readU32 tmp index

/-! ## Encoding -/

/-- A package without a message number gets one. -/
def numbered (msgNumber : Bytes) (data : SpecDataStruct) : SpecDataStruct :=
  if data.msgReq = [] then { data with msgReq := msgNumber } else data

def packageLength (data : SpecDataStruct) : ℕ :=
  2 + 6 * 4 + data.pbData.length + data.serviceFullName.length + data.msgReq.length +
    data.errInfo.length

/-- The bytes of a package. -/
def wire (data : SpecDataStruct) : Bytes :=
  [PB_START] ++ (hton32 (UInt32.ofNat (packageLength data)) ++
    (hton32 (UInt32.ofNat data.msgReq.length) ++ (data.msgReq ++
      (hton32 (UInt32.ofNat data.serviceFullName.length) ++ (data.serviceFullName ++
        (hton32 data.errCode ++ (hton32 (UInt32.ofNat data.errInfo.length) ++ (data.errInfo ++
          (data.pbData ++ (hton32 1 ++ [PB_END]))))))))))

/-- The lengths are kept with the package. -/
def measured (data : SpecDataStruct) : SpecDataStruct :=
  { data with
    pkLen := UInt32.ofNat (packageLength data)
    msgReqLen := UInt32.ofNat data.msgReq.length
    serviceNameLen := UInt32.ofNat data.serviceFullName.length
    errInfoLen := UInt32.ofNat data.errInfo.length
    checkNum := 1 }

def encodePbData (msgNumber : Bytes) (data : SpecDataStruct) : Option (Bytes × SpecDataStruct) :=
  if data.serviceFullName = [] then none
  else some (wire (numbered msgNumber data), measured (numbered msgNumber data))

/-- The buffer with the package, and the package as it has been completed. -/
def encode (msgNumber : Bytes) (buf : TcpBuffer) (data : SpecDataStruct) :
    Option (TcpBuffer × SpecDataStruct) :=
  match encodePbData msgNumber data with
  | none => some (buf, data)
  | some (re, data) => (buf.writeToBuffer re).map (·, data)

/-! ## Decoding -/

structure Found where
  startIndex : ℕ
  endIndex : ℕ
  pkLen : UInt32
  deriving DecidableEq

/-- The search for a package from an index on, over the number of bytes that are left. An index
is a signed number of 32 bits, and the sum that leads to the end byte wraps around. -/
def search (tmp : Bytes) (writeIndex : ℕ) : ℕ → ℕ → Option (Option Found)
  | 0, _ => some none
  | left + 1, i => do
    let first ← tmp[i]?
    if first = PB_START ∧ i + 1 < writeIndex then
      let pkLen ← netByteToInt32 tmp (i + 1)
      let j := (i + pkLen.toNat + 2 ^ 32 - 1) % 2 ^ 32
      if 2 ^ 31 ≤ j then none
      else if writeIndex ≤ j then search tmp writeIndex left (i + 1)
      else
        let last ← tmp[j]?
        if last = PB_END then some (some ⟨i, j, pkLen⟩) else search tmp writeIndex left (i + 1)
    else search tmp writeIndex left (i + 1)

/-- A text that is copied into an array of zeros and read up to the first zero. -/
def arrayString (capacity : ℕ) (tmp : Bytes) (index length : ℕ) : Option Bytes :=
  let copied := (tmp.drop index).take length
  let array := copied ++ replicate (capacity - length) 0
  if copied.length = length ∧ length ≤ capacity ∧ 0 ∈ array then
    some (array.takeWhile (· ≠ 0))
  else none

/-- The fields of a package; `some none` is one that is dropped. -/
def parse (tmp : Bytes) (found : Found) : Option (Option SpecDataStruct) := do
  let msgReqLenIndex := found.startIndex + 1 + 4
  if msgReqLenIndex ≥ found.endIndex then return none
  let msgReqLen ← netByteToInt32 tmp msgReqLenIndex
  if msgReqLen = 0 then return none
  let msgReqIndex := msgReqLenIndex + 4
  let msgReq ← arrayString 50 tmp msgReqIndex msgReqLen.toNat
  let serviceNameLenIndex := msgReqIndex + msgReqLen.toNat
  if serviceNameLenIndex ≥ found.endIndex then return none
  let serviceNameIndex := serviceNameLenIndex + 4
  if serviceNameIndex ≥ found.endIndex then return none
  let serviceNameLen ← netByteToInt32 tmp serviceNameLenIndex
  if serviceNameLen > found.pkLen then return none
  let serviceName ← arrayString 512 tmp serviceNameIndex serviceNameLen.toNat
  let errCodeIndex := serviceNameIndex + serviceNameLen.toNat
  let errCode ← netByteToInt32 tmp errCodeIndex
  let errInfoLenIndex := errCodeIndex + 4
  if errInfoLenIndex ≥ found.endIndex then return none
  let errInfoLen ← netByteToInt32 tmp errInfoLenIndex
  let errInfoIndex := errInfoLenIndex + 4
  let errInfo ← arrayString 512 tmp errInfoIndex errInfoLen.toNat
  let pbDataIndex := errInfoIndex + errInfoLen.toNat
  if pbDataIndex ≥ found.endIndex then return none
  -- A length below zero is refused by the string.
  let others := serviceNameLen.toNat + msgReqLen.toNat + errInfoLen.toNat + 2 + 6 * 4
  if found.pkLen.toNat < others then none
  else
    let pbDataLen := found.pkLen.toNat - others
    if tmp.length < pbDataIndex + pbDataLen then none
    else
      return some {
        pkLen := found.pkLen
        msgReqLen, msgReq, serviceNameLen
        serviceFullName := serviceName
        errCode, errInfoLen, errInfo
        pbData := (tmp.drop pbDataIndex).take pbDataLen }

/-- The buffer after it, and the package if one has been read. -/
def decode (buf : TcpBuffer) : Option (TcpBuffer × Option SpecDataStruct) := do
  let tmp := buf.buffer
  match ← search tmp buf.writeIndex (buf.writeIndex - buf.readIndex) buf.readIndex with
  | none => return (buf, none)
  | some found =>
    let buf := buf.recycleRead ((found.endIndex : ℤ) + 1 - found.startIndex)
    let data ← parse tmp found
    return (buf, data)

/-! ## Reading back what has been written -/

/-- The service is named, and the texts fit into the arrays of the decoder. -/
structure WellFormed (data : SpecDataStruct) : Prop where
  service : data.serviceFullName ≠ []
  msgReq : data.msgReq.length < 50 ∧ 0 ∉ data.msgReq
  serviceFullName : data.serviceFullName.length < 512 ∧ 0 ∉ data.serviceFullName
  errInfo : data.errInfo.length < 512 ∧ 0 ∉ data.errInfo

/-- A package as the receiver sees it: the checksum is not read. -/
def received (data : SpecDataStruct) : SpecDataStruct := { measured data with checkNum := -1 }

section RoundTrip

variable {tmp text piece rest : Bytes} {value : UInt32} {index n : ℕ} {data : SpecDataStruct}

theorem length_hton32 : (hton32 value).length = 4 := Tunnel.length_appendU32 [] value

theorem length_wire (data : SpecDataStruct) : (wire data).length = packageLength data := by
  simp only [wire, packageLength, length_append, length_singleton, length_hton32]
  omega

theorem netByteToInt32_of_drop (h : tmp.drop index = hton32 value ++ rest) :
    netByteToInt32 tmp index = some value := by
  have hzero : netByteToInt32 tmp index = Tunnel.readU32 (tmp.drop index) 0 := rfl
  rw [hzero, h]
  exact Tunnel.readU32_zero_appendU32 rest value

theorem drop_of_drop (h : tmp.drop index = piece ++ rest) (hlength : piece.length = n) :
    tmp.drop (index + n) = rest := by
  rw [← drop_drop, h, ← hlength, drop_left]

theorem arrayString_of_drop {capacity : ℕ} (h : tmp.drop index = text ++ rest)
    (hlength : text.length < capacity) (hzero : 0 ∉ text) :
    arrayString capacity tmp index text.length = some text := by
  have hcopied : (tmp.drop index).take text.length = text := by rw [h, take_left]
  have hpad : replicate (capacity - text.length) (0 : UInt8) =
      0 :: replicate (capacity - text.length - 1) 0 := by
    rw [← replicate_succ]
    congr 1
    omega
  rw [arrayString, hcopied, if_pos ⟨rfl, hlength.le, mem_append_right _ (by rw [hpad]; exact mem_cons_self)⟩, hpad,
    takeWhile_append_of_pos]
  · simp
  · intro b hb
    rw [decide_eq_true_iff]
    rintro rfl
    exact hzero hb

theorem parse_wire {found : Found} (hwf : WellFormed data) (hmsg : data.msgReq ≠ [])
    (hsize : packageLength data < 2 ^ 32) (hdrop : tmp.drop found.startIndex = wire data ++ rest)
    (hend : found.endIndex + 1 = found.startIndex + packageLength data)
    (hlen : found.pkLen = UInt32.ofNat (packageLength data)) :
    parse tmp found = some (some (received data)) := by
  have htoNat : ∀ n : ℕ, n < 2 ^ 32 → (UInt32.ofNat n).toNat = n := fun n hn ↦ by
    rw [UInt32.toNat_ofNat', Nat.mod_eq_of_lt hn]
  have hlength := hsize
  rw [packageLength] at hlength hend
  simp only [wire, append_assoc] at hdrop
  -- The pieces of the package, one after the other.
  have hpk := drop_of_drop hdrop (length_singleton)
  have hreq := drop_of_drop hpk length_hton32
  have hreqText := drop_of_drop hreq length_hton32
  have hname := drop_of_drop hreqText rfl
  have hnameText := drop_of_drop hname length_hton32
  have hcode := drop_of_drop hnameText rfl
  have hinfo := drop_of_drop hcode length_hton32
  have hinfoText := drop_of_drop hinfo length_hton32
  have hpb := drop_of_drop hinfoText rfl
  have hreqNat := htoNat data.msgReq.length (by omega)
  have hnameNat := htoNat data.serviceFullName.length (by omega)
  have hinfoNat := htoNat data.errInfo.length (by omega)
  have hpkNat : found.pkLen.toNat = packageLength data := by rw [hlen, htoNat _ hsize]
  have hreqZero : UInt32.ofNat data.msgReq.length ≠ 0 := by
    intro hzero
    rw [hzero] at hreqNat
    exact hmsg (length_eq_zero_iff.mp hreqNat.symm)
  have hnameLe : ¬ UInt32.ofNat data.serviceFullName.length > found.pkLen := by
    rw [gt_iff_lt, UInt32.lt_iff_toNat_lt, hnameNat, hpkNat, packageLength]
    omega
  have hpbLen : found.pkLen.toNat -
      (data.serviceFullName.length + data.msgReq.length + data.errInfo.length + 2 + 6 * 4) =
        data.pbData.length := by
    rw [hpkNat, packageLength]
    omega
  simp only [parse, bind_eq_bind]
  rw [if_neg (by omega), netByteToInt32_of_drop hreq, bind_some, if_neg hreqZero, hreqNat,
    arrayString_of_drop hreqText hwf.msgReq.1 hwf.msgReq.2, bind_some, if_neg (by omega),
    if_neg (by omega), netByteToInt32_of_drop hname, bind_some, if_neg hnameLe, hnameNat,
    arrayString_of_drop hnameText hwf.serviceFullName.1 hwf.serviceFullName.2, bind_some,
    netByteToInt32_of_drop hcode, bind_some, if_neg (by omega), netByteToInt32_of_drop hinfo,
    bind_some, hinfoNat, arrayString_of_drop hinfoText hwf.errInfo.1 hwf.errInfo.2,
    bind_some, if_neg (by omega), hpbLen, hpb, take_left]
  rw [if_neg (by rw [hpkNat, packageLength]; omega), if_neg, hlen]
  · rfl
  · have htotal := congrArg length hpb
    rw [length_drop, length_append, length_append, length_hton32] at htotal
    omega

theorem getElem?_of_drop {b : UInt8} (h : tmp.drop index = piece ++ rest) (hn : piece[n]? = some b) :
    tmp[index + n]? = some b := by
  have hlt : n < piece.length := (List.getElem?_eq_some_iff.mp hn).1
  rw [← getElem?_drop, h, getElem?_append_left hlt, hn]

theorem getElem?_wire_end : (wire data)[packageLength data - 1]? = some PB_END := by
  have hsplit : ∃ front, wire data = front ++ [PB_END] := by
    refine ⟨[PB_START] ++ (hton32 (UInt32.ofNat (packageLength data)) ++
      (hton32 (UInt32.ofNat data.msgReq.length) ++ (data.msgReq ++
        (hton32 (UInt32.ofNat data.serviceFullName.length) ++ (data.serviceFullName ++
          (hton32 data.errCode ++ (hton32 (UInt32.ofNat data.errInfo.length) ++ (data.errInfo ++
            (data.pbData ++ hton32 1))))))))), ?_⟩
    simp only [wire, append_assoc]
  obtain ⟨front, hfront⟩ := hsplit
  have hlength := length_wire data
  rw [hfront, length_append, length_singleton] at hlength
  rw [hfront, ← hlength, Nat.add_sub_cancel, getElem?_concat_length]

/-- A package at the beginning is found at once. -/
theorem search_wire {writeIndex left : ℕ} (hdrop : tmp.drop index = wire data ++ rest)
    (hwrite : index + packageLength data ≤ writeIndex) (hlimit : writeIndex < 2 ^ 31) :
    search tmp writeIndex (left + 1) index =
      some (some ⟨index, index + packageLength data - 1, UInt32.ofNat (packageLength data)⟩) := by
  have hmin : 26 ≤ packageLength data := by
    rw [packageLength]
    omega
  have hfirst : tmp[index + 0]? = some PB_START := getElem?_of_drop hdrop rfl
  have hlen : netByteToInt32 tmp (index + 1) = some (UInt32.ofNat (packageLength data)) := by
    simp only [wire, append_assoc] at hdrop
    exact netByteToInt32_of_drop (drop_of_drop hdrop length_singleton)
  have hlast : tmp[index + (packageLength data - 1)]? = some PB_END :=
    getElem?_of_drop hdrop getElem?_wire_end
  have htoNat : (UInt32.ofNat (packageLength data)).toNat = packageLength data := by
    rw [UInt32.toNat_ofNat', Nat.mod_eq_of_lt (by omega)]
  have hj : (index + packageLength data + 2 ^ 32 - 1) % 2 ^ 32 = index + packageLength data - 1 := by
    omega
  rw [Nat.add_zero] at hfirst
  rw [← Nat.add_sub_assoc (by omega)] at hlast
  simp only [search, bind_eq_bind, hfirst, bind_some]
  rw [if_pos ⟨trivial, by omega⟩, hlen, bind_some, htoNat, hj, if_neg (by omega), if_neg (by omega),
    hlast, bind_some, if_pos rfl]

/-- A package that can be read as a whole is read, and what follows it is left. -/
theorem decode_wire {buf : TcpBuffer} (hvalid : buf.Valid) (hlimit : buf.writeIndex < 2 ^ 31)
    (hwf : WellFormed data) (hmsg : data.msgReq ≠ []) (hread : buf.readable = wire data ++ rest) :
    ∃ buf', decode buf = some (buf', some (received data)) ∧ buf'.Valid ∧ buf'.readable = rest ∧
      buf'.writeIndex ≤ buf.writeIndex := by
  have hmin : 26 ≤ packageLength data := by
    rw [packageLength]
    omega
  have hreadAble : buf.readAble = packageLength data + rest.length := by
    rw [← length_readable hvalid, hread, length_append, length_wire]
  have hdrop : buf.buffer.drop buf.readIndex =
      wire data ++ (rest ++ buf.buffer.drop buf.writeIndex) := by
    rw [drop_readIndex hvalid, hread, append_assoc]
  rw [readAble] at hreadAble
  have hfound : search buf.buffer buf.writeIndex (buf.writeIndex - buf.readIndex) buf.readIndex =
      some (some ⟨buf.readIndex, buf.readIndex + packageLength data - 1,
        UInt32.ofNat (packageLength data)⟩) := by
    rw [← Nat.sub_add_cancel (by omega : 1 ≤ buf.writeIndex - buf.readIndex)]
    exact search_wire hdrop (by omega) hlimit
  have hparse : parse buf.buffer ⟨buf.readIndex, buf.readIndex + packageLength data - 1,
      UInt32.ofNat (packageLength data)⟩ = some (some (received data)) :=
    parse_wire hwf hmsg (by omega) hdrop (by dsimp only; omega) rfl
  have hindex : ((buf.readIndex + packageLength data - 1 : ℕ) : ℤ) + 1 - buf.readIndex =
      (packageLength data : ℕ) := by omega
  obtain ⟨hvalid', hreadable⟩ := recycleRead_spec hvalid
    (by rw [readAble]; omega : packageLength data ≤ buf.readAble)
  refine ⟨buf.recycleRead (packageLength data), ?_, hvalid', ?_, writeIndex_recycleRead_le buf _⟩
  · simp only [decode, bind_eq_bind, hfound, bind_some, hparse, hindex]
    rfl
  · rw [hreadable, hread, ← length_wire, drop_left]

end RoundTrip

/-! ## What a decoded package takes -/

section Taken

variable {tmp text : Bytes} {index n writeIndex : ℕ} {found : Found} {data : SpecDataStruct}

/-- What is found lies in what has been received, with the length that is read. -/
theorem search_found {left : ℕ} (h : search tmp writeIndex left index = some (some found)) :
    index ≤ found.startIndex ∧ found.endIndex < writeIndex ∧ found.endIndex < tmp.length ∧
      (found.startIndex ≤ found.endIndex →
        found.endIndex + 1 = found.startIndex + found.pkLen.toNat) := by
  induction left generalizing index with
  | zero => cases h
  | succ left ih =>
    have hnext : search tmp writeIndex left (index + 1) = some (some found) →
        index ≤ found.startIndex ∧ found.endIndex < writeIndex ∧ found.endIndex < tmp.length ∧
          (found.startIndex ≤ found.endIndex →
            found.endIndex + 1 = found.startIndex + found.pkLen.toNat) := by
      intro hlater
      obtain ⟨hstart, hrest⟩ := ih hlater
      exact ⟨by omega, hrest⟩
    simp only [search, bind_eq_bind] at h
    obtain ⟨first, -, h⟩ := bind_eq_some_iff.mp h
    split_ifs at h
    · obtain ⟨pkLen, -, h⟩ := bind_eq_some_iff.mp h
      split_ifs at h with hsigned hout
      · exact hnext h
      · obtain ⟨last, hlast, h⟩ := bind_eq_some_iff.mp h
        split_ifs at h
        · cases h
          have hlt := (List.getElem?_eq_some_iff.mp hlast).1
          have hpk := pkLen.toNat_lt
          dsimp only
          exact ⟨Nat.le_refl _, by omega, hlt, by omega⟩
        · exact hnext h
    · exact hnext h

theorem length_arrayString {capacity : ℕ} (h : arrayString capacity tmp index n = some text) :
    text.length ≤ n := by
  rw [arrayString] at h
  split_ifs at h with hcopied
  cases h
  rw [takeWhile_append, takeWhile_replicate]
  have hle : (((tmp.drop index).take n).takeWhile fun b ↦ decide (b ≠ 0)).length ≤
      ((tmp.drop index).take n).length := (List.takeWhile_prefix _).length_le
  split_ifs with hall hzero
  · exact absurd hzero (by decide)
  · rw [append_nil, hcopied.1]
  · exact hle.trans hcopied.1.le

/-- A check that drops the package has been passed. -/
theorem not_dropped {dropped : Prop} [Decidable dropped] {next : Option (Option SpecDataStruct)}
    (h : (if dropped then pure none else next) = some (some data)) :
    ¬ dropped ∧ next = some (some data) := by
  split_ifs at h with hdropped
  · cases h
  · exact ⟨hdropped, h⟩

theorem parse_length (h : parse tmp found = some (some data)) :
    packageLength data ≤ found.pkLen.toNat ∧ found.startIndex ≤ found.endIndex := by
  rw [parse] at h
  obtain ⟨hheader, h⟩ := not_dropped h
  obtain ⟨msgReqLen, -, h⟩ := bind_eq_some_iff.mp h
  obtain ⟨msgReq, hmsgReq, h⟩ := bind_eq_some_iff.mp (not_dropped h).2
  obtain ⟨serviceNameLen, -, h⟩ := bind_eq_some_iff.mp (not_dropped (not_dropped h).2).2
  obtain ⟨serviceName, hserviceName, h⟩ := bind_eq_some_iff.mp (not_dropped h).2
  obtain ⟨errCode, -, h⟩ := bind_eq_some_iff.mp h
  obtain ⟨errInfoLen, -, h⟩ := bind_eq_some_iff.mp (not_dropped h).2
  obtain ⟨errInfo, herrInfo, h⟩ := bind_eq_some_iff.mp h
  obtain ⟨hothers, h⟩ := ite_none_left_eq_some.mp (not_dropped h).2
  obtain ⟨hlength, h⟩ := ite_none_left_eq_some.mp h
  cases h
  have hmsgReqLe := length_arrayString hmsgReq
  have hserviceNameLe := length_arrayString hserviceName
  have herrInfoLe := length_arrayString herrInfo
  refine ⟨?_, by omega⟩
  have hpbLe := length_take_le (found.pkLen.toNat -
    (serviceNameLen.toNat + msgReqLen.toNat + errInfoLen.toNat + 2 + 6 * 4))
    (tmp.drop (found.startIndex + 1 + 4 + 4 + msgReqLen.toNat + 4 + serviceNameLen.toNat + 4 + 4 +
      errInfoLen.toNat))
  rw [packageLength]
  dsimp only
  omega

variable {buf buf' : TcpBuffer}

/-- For a decoded package, at least its length is taken from what can be read. -/
theorem decode_taken (h : decode buf = some (buf', some data)) :
    ∃ n : ℕ, packageLength data ≤ n ∧ buf.readIndex + n ≤ buf.writeIndex ∧
      buf.readIndex + n ≤ buf.buffer.length ∧ buf' = buf.recycleRead n := by
  simp only [decode, bind_eq_bind] at h
  obtain ⟨result, hsearch, h⟩ := bind_eq_some_iff.mp h
  cases result with
  | none => cases h
  | some found =>
    obtain ⟨parsed, hparse, h⟩ := bind_eq_some_iff.mp h
    cases h
    obtain ⟨hstart, hend, hlength, hlen⟩ := search_found hsearch
    obtain ⟨hpackage, hle⟩ := parse_length hparse
    have hpk := hlen hle
    have hindex : (found.endIndex : ℤ) + 1 - found.startIndex = (found.pkLen.toNat : ℕ) := by omega
    exact ⟨found.pkLen.toNat, hpackage, by omega, by omega, by rw [hindex]⟩

theorem decode_length (hvalid : buf.Valid) (h : decode buf = some (buf', some data)) :
    buf'.Valid ∧ (wire data).length + buf'.readable.length ≤ buf.readable.length := by
  obtain ⟨n, hpackage, hwrite, -, rfl⟩ := decode_taken h
  have hfits : n ≤ buf.readAble := by
    rw [readAble]
    omega
  obtain ⟨hvalid', hreadable⟩ := recycleRead_spec hvalid hfits
  refine ⟨hvalid', ?_⟩
  rw [hreadable, length_drop, length_wire, length_readable hvalid]
  omega

theorem readAble_decode (h : decode buf = some (buf', some data)) :
    buf'.readAble < buf.readAble := by
  obtain ⟨n, hpackage, hwrite, hlength, rfl⟩ := decode_taken h
  rw [packageLength] at hpackage
  rw [recycleRead, if_neg (by omega), readAble_adjustBuffer, readAble, readAble]
  dsimp only
  omega

end Taken

end ZRpcCodeC

end DdeCooperation.Zrpc
