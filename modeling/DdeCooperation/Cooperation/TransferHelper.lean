import DdeCooperation.Session.Server
import Mathlib.Data.List.Infix

/-!
# The transfer helper

`TransferHelper` carries a transfer from the user's choice of files to its end, on the
side that sends and on the side that receives. Both sides keep their partner in the same
field. Its slots return the helper and what they call: the network part, and what the
user is shown about the result. Dialogs and the progress display are not kept.
-/

namespace DdeCooperation.Cooperation

open Session

namespace TransferHelper

inductive TransferStatus where
  | idle
  | confirming
  | connecting
  | transfering
deriving DecidableEq

inductive TransferType where
  | server
  | client

/-- The actions of a notification or a dialog. -/
inductive Action where
  | cancel
  | reject
  | accept
  | close
  | view

/-- What is reported about a running transfer, as far as the helper acts on it. -/
inductive TransChange where
  | canceled
  | exception (reason : String)
  | wholeStart
  | wholeFinish
  | other

/-- What the daemon of the old protocol reports about a job. -/
inductive JobChange where
  | failed (msg : String)
  | doing
  | finished
  | canceled
  | other

inductive HelperCall where
  | tryTransApply (ip : Address)
  | doSendFiles (fileList : List String) (targetIp : Address)
  | replyTransRequest (agree : Bool) (targetIp : Address)
  | cancelTrans (targetIp : Address)
  | cancelApply (type : String) (targetIp : Address)
  | setStorageFolder (folder : String)
  | transferResult (result : Bool) (msg : String)
  | notifyMessage (body : String)

def storageFull : String :=
  "Insufficient storage space, file delivery failed this time. Please clean up disk space and try again!"

def notConnected : String :=
  "Network not connected, file delivery failed this time. Please connect to the network and try again!"

def readWriteException : String := "File read/write exception"

end TransferHelper

open TransferHelper in
structure TransferHelper where
  who : String := ""
  /-- The sender's address on the receiving side, the receiver's on the sending side. -/
  targetDeviceIp : Address := ""
  readyToSendFiles : List String := []
  status : TransferStatus := .idle
  role : Option TransferType := none
  isTransTimeout : Bool := false

namespace TransferHelper

/-- The fields are written before the call is refused; a refused call also makes the
helper idle. -/
def sendFiles (ip devName : String) (fileList : List String) (helper : TransferHelper) :
    TransferHelper × List HelperCall :=
  let helper := { helper with
    who := devName, targetDeviceIp := ip, readyToSendFiles := fileList }
  if fileList = [] then (helper, [])
  else if helper.status ≠ .idle then ({ helper with status := .idle }, [])
  else ({ helper with status := .connecting, isTransTimeout := false }, [.tryTransApply ip])

def onVerifyTimeout (helper : TransferHelper) : TransferHelper × List HelperCall :=
  let helper := { helper with isTransTimeout := true }
  if helper.status ≠ .confirming then (helper, [])
  else
    ({ helper with status := .idle },
      [.transferResult false "The other party did not receive, the files failed to send"])

def cancelTransfer (click : Bool) (helper : TransferHelper) : TransferHelper × List HelperCall :=
  if helper.status = .idle then (helper, [])
  else
    ({ helper with status := .idle },
      if click then []
      else [.transferResult false "The other party has canceled the file transfer"])

def onActionTriggered (action : Action) (helper : TransferHelper) :
    TransferHelper × List HelperCall :=
  match action with
  | .cancel =>
    let (helper, calls) := helper.cancelTransfer true
    (helper, calls ++ [.cancelTrans helper.targetDeviceIp])
  | .reject => (helper, [.replyTransRequest false helper.targetDeviceIp])
  | .accept =>
    ({ helper with role := some .client }, [.replyTransRequest true helper.targetDeviceIp])
  | .close => (helper, [])
  | .view => (helper, [])

def notifyTransferRequest (nick ip : String) (helper : TransferHelper) :
    TransferHelper × List HelperCall :=
  ({ helper with who := nick, targetDeviceIp := ip },
    [.setStorageFolder (nick ++ "(" ++ ip ++ ")"),
      .notifyMessage ("\"" ++ nick ++ "\" send some files to you")])

def handleCancelTransferApply (helper : TransferHelper) : TransferHelper × List HelperCall :=
  (helper, [.notifyMessage "The other party has cancelled the transfer request !"])

def onConnectStatusChanged (result : ℤ) (msg : String) (isself : Bool) (helper : TransferHelper) :
    TransferHelper × List HelperCall :=
  if result > 0 then
    if isself then ({ helper with status := .confirming }, []) else (helper, [])
  else if helper.status = .idle then (helper, [])
  else
    ({ helper with status := .idle },
      [.transferResult false ("Connect to \"" ++ msg ++ "\" failed")])

def onTransChanged (change : TransChange) (helper : TransferHelper) :
    TransferHelper × List HelperCall :=
  match change with
  | .canceled => helper.cancelTransfer false
  | .exception reason =>
    ({ helper with status := .idle },
      [.transferResult false
        (if reason = "io_error" then storageFull
          else if reason = "net_error" then notConnected else readWriteException)])
  | .wholeStart => ({ helper with status := .transfering }, [])
  | .wholeFinish =>
    ({ helper with status := .idle }, [.transferResult true "File sent successfully"])
  | .other => (helper, [])

def accepted (helper : TransferHelper) : TransferHelper × List HelperCall :=
  if helper.status ≠ .confirming then ({ helper with status := .idle }, [])
  else
    ({ helper with status := .transfering, role := some .server },
      [.doSendFiles helper.readyToSendFiles helper.targetDeviceIp])

def rejected (helper : TransferHelper) : TransferHelper × List HelperCall :=
  ({ helper with status := .idle },
    if helper.isTransTimeout then []
    else [.transferResult false "The other party rejects your request"])

def cancelTransferApply (helper : TransferHelper) : TransferHelper × List HelperCall :=
  ({ helper with status := .idle }, [.cancelApply "transfer" helper.targetDeviceIp])

def compatTransJobStatusChanged (change : JobChange) (helper : TransferHelper) :
    TransferHelper × List HelperCall :=
  match change with
  | .failed msg =>
    match helper.role with
    | some .server => ({ helper with status := .idle }, [])
    | _ =>
      (helper, [.transferResult false
        (if "::not enough".toList <:+: msg.toList then storageFull
          else if "::off line".toList <:+: msg.toList then notConnected
          else readWriteException)])
  | .doing => ({ helper with status := .transfering }, [])
  | .finished =>
    ({ helper with status := .idle }, [.transferResult true "File sent successfully"])
  | .canceled =>
    ({ helper with status := .idle },
      [.transferResult false "The other party has canceled the file transfer"])
  | .other => (helper, [])

def onTransferExcepted (type : ℤ) (remote : Address) (helper : TransferHelper) :
    TransferHelper × List HelperCall :=
  if helper.status = .idle then (helper, [])
  else
    let (helper, calls) := helper.cancelTransfer true
    (helper, calls ++ .cancelTrans remote ::
      -- silent peer, no space left, failed access
      if type = -3 then [.transferResult false notConnected]
      else if type = -2 then [.transferResult false storageFull]
      else if type = -1 then [.transferResult false readWriteException]
      else [])

end TransferHelper

end DdeCooperation.Cooperation
