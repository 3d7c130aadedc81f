import DdeCooperation.Foundations.FileSystem
import DdeCooperation.Qt.Values
import DdeCooperation.Session.Messages

/-!
# The request to share

The request of a device to share the mouse is handed to the helper as one text, its fields
with commas between them. The helper splits it again. A field that holds a comma itself, as
the name of a device may, moves the fields behind it.
-/

namespace DdeCooperation.Cooperation.Share

open Qt Session Foundations

/-- `info`, as the handler of `APPLY_SHARE` composes it. -/
def shareInfo (req : ApplyMessage) : QString :=
  req.host ++ "," ++ req.nick ++ "," ++ req.fingerprint ++ "," ++ if req.tunnel then "1" else "0"

/-- `QString::split(',')`. -/
def split (info : QString) : List QString := (info.toList.splitOn ',').map String.ofList

/-- The part of the helper that a request concerns. A timer is there as whether it is active. -/
structure ShareHelper where
  isReplied : Bool := false
  isTimeout : Bool := false
  isRecvMode : Bool := true
  /-- There is a target device and it is connected. -/
  targetConnected : Bool := false
  senderDeviceIp : QString := ""
  targetDevName : QString := ""
  recvServerPrint : QString := ""
  peerSupportsTunnel : Bool := false
  tunnelPort : UInt16 := 0
  useTunnel : Bool := false
  barrierReadyTimer : Bool := false
  confirmTimer : Bool := false

/-- What the helper calls. -/
inductive Action where
  | replyShareRequestBusy (ip : QString)
  | stopTunnels
  | setTunnelPeer (ip : QString)
  /-- The question to the user, with the name of the device. -/
  | notifyMessage (device : QString)

def busy (isCooperating : Bool) (d : ShareHelper) : Bool :=
  isCooperating || (d.isRecvMode && d.targetConnected)

def notifyConnectRequest (isCooperating : Bool) (info : QString) (d : ShareHelper) :
    ShareHelper × List Action :=
  let infoList := split info
  if busy isCooperating d then
    (d, if infoList.length ≥ 3 then [.replyShareRequestBusy (infoList.headD "")] else [])
  else
    let d := { d with
      isReplied := false, isTimeout := false, isRecvMode := true, senderDeviceIp := "",
      peerSupportsTunnel := false, tunnelPort := 0, useTunnel := false,
      barrierReadyTimer := false, confirmTimer := false }
    match infoList with
    | ip :: name :: rest =>
      -- the print and the flag are optional
      ({ d with
        senderDeviceIp := ip, targetDevName := name,
        recvServerPrint := rest.headD d.recvServerPrint,
        peerSupportsTunnel := rest[1]? = some "1" },
        [.stopTunnels, .setTunnelPeer "", .notifyMessage name])
    | _ => (d, [.stopTunnels, .setTunnelPeer ""])

/-- A helper that is not busy reads the fields of the request. -/
def Understood (req : ApplyMessage) : Prop :=
  ∀ isCooperating d, busy isCooperating d = false →
    let after := (notifyConnectRequest isCooperating (shareInfo req) d).1
    after.senderDeviceIp = req.host ∧ after.targetDevName = req.nick ∧
      after.recvServerPrint = req.fingerprint ∧ after.peerSupportsTunnel = req.tunnel

theorem comma_notMem_of_mem_split {info part : QString} (h : part ∈ split info) :
    ',' ∉ part.toList := by
  obtain ⟨chars, hchars, rfl⟩ := List.mem_map.mp h
  rw [String.toList_ofList]
  exact (mem_splitOn hchars).1

theorem split_shareInfo {req : ApplyMessage} (hhost : ',' ∉ req.host.toList)
    (hnick : ',' ∉ req.nick.toList) (hprint : ',' ∉ req.fingerprint.toList) :
    split (shareInfo req) =
      [req.host, req.nick, req.fingerprint, if req.tunnel then "1" else "0"] := by
  have htunnel : ',' ∉ (if req.tunnel then "1" else "0").toList := by
    split <;> decide
  have hinfo : (shareInfo req).toList = req.host.toList ++ spell ',' [req.nick.toList,
      req.fingerprint.toList, (if req.tunnel then "1" else "0").toList] := by
    simp [shareInfo, spell]
  rw [split, hinfo, splitOn_append_spell _ (by simp [hnick, hprint, htunnel]),
    List.splitOn_eq_singleton hhost]
  simp

/-- A request is understood exactly when no field holds a comma. -/
theorem understood_iff (req : ApplyMessage) :
    Understood req ↔ ',' ∉ req.host.toList ∧ ',' ∉ req.nick.toList ∧
      ',' ∉ req.fingerprint.toList := by
  constructor
  · intro h
    obtain ⟨hhost, hnick, hprint, -⟩ := h false {} rfl
    rw [← hhost, ← hnick, ← hprint]
    have hparts : ∀ part ∈ split (shareInfo req), ',' ∉ part.toList :=
      fun part ↦ comma_notMem_of_mem_split
    unfold notifyConnectRequest
    generalize split (shareInfo req) = parts at hparts
    rcases parts with _ | ⟨ip, _ | ⟨name, _ | ⟨print, rest⟩⟩⟩ <;> simp_all [busy]
  · rintro ⟨hhost, hnick, hprint⟩ isCooperating d hidle
    simp only [notifyConnectRequest, hidle, split_shareInfo hhost hnick hprint]
    cases req.tunnel <;> simp

/-- The name of the device brings a fingerprint of its own, and takes the tunnel away. -/
theorem not_understood_comma :
    ¬ Understood { host := "10.0.0.2", nick := "pc,00", fingerprint := "ff", tunnel := true } := by
  intro h
  exact absurd (h false {} rfl).2.1 (by decide)

end DdeCooperation.Cooperation.Share
