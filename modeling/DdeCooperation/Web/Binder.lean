import Mathlib.Data.List.AList

/-!
# Web names and the file server

The sender of a transfer binds web names to paths on its disk and serves requests
for these names over HTTP. `WebBinder` is the table of bindings, most recent first;
`onReceivedRequest` is the dispatch of one request. A `std::string` is a list of
bytes.

What happens on the disk is not part of the model: a response says which path is
handed to `serveInfo` or `serveContent`.
-/

namespace DdeCooperation.Web

abbrev StdString := List UInt8

def slash : UInt8 := 47
def dot : UInt8 := 46

/-- The bytes of an ASCII text. -/
def ascii (text : String) : StdString := text.toList.map fun c ↦ UInt8.ofNat c.toNat

namespace StdString

/-- `std::string::find` for a string: the first position where `needle` starts. -/
def find (needle : StdString) : StdString → Option ℕ
  | [] => if needle = [] then some 0 else none
  | c :: rest => if needle <+: c :: rest then some 0 else (find needle rest).map (· + 1)

/-- `substr(0, position)`, where no position means the whole string. -/
def before (text : StdString) : Option ℕ → StdString
  | some position => text.take position
  | none => text

/-- `substr(position + 1)`, where no position wraps around to the whole string. -/
def after (text : StdString) : Option ℕ → StdString
  | some position => text.drop (position + 1)
  | none => text

end StdString

/-! ## The table of bindings -/

structure WebBinder where
  binds : List (StdString × StdString) := []
  deriving DecidableEq

namespace WebBinder

/-- The class `\s` of the regular expression. -/
def isSpace (c : UInt8) : Bool := c = 32 || (9 ≤ c && c ≤ 13)

/-- `regex_match` with `\S*\/$`: the text ends with a slash and has no white space. -/
def isFile (text : StdString) : Bool :=
  text.getLast? = some slash && text.all fun c ↦ !isSpace c

def bind (webDir diskDir : StdString) (binder : WebBinder) : ℤ × WebBinder :=
  if isFile webDir != isFile diskDir then (-4, binder)
  else if binder.binds.any fun pair ↦ pair.1 = webDir then (-1, binder)
  else (0, ⟨(webDir, diskDir) :: binder.binds⟩)

def unbind (webDir : StdString) (binder : WebBinder) : ℤ × WebBinder :=
  if binder.binds.any fun pair ↦ pair.1 = webDir then
    (0, ⟨binder.binds.eraseP fun pair ↦ pair.1 = webDir⟩)
  else (-1, binder)

def clear (_ : WebBinder) : WebBinder := {}

/-- The most recent binding whose web name is the beginning of a path. -/
def findBind (path : StdString) (binder : WebBinder) : Option (StdString × StdString) :=
  binder.binds.find? fun pair ↦ pair.1 <+: path

def getPath (path : StdString) (binder : WebBinder) : StdString :=
  if path = [] then []
  else
    match binder.findBind path with
    | some (virtualBind, diskDir) => diskDir ++ path.drop virtualBind.length
    | none => []

/-- Some web name contains `name`. -/
def containWeb (name : StdString) (binder : WebBinder) : Bool :=
  binder.binds.any fun pair ↦ (StdString.find name pair.1).isSome

/-- The calls that change the table. -/
inductive Call where
  | bind (webDir diskDir : StdString)
  | unbind (webDir : StdString)
  | clear

def step (binder : WebBinder) : Call → WebBinder
  | .bind webDir diskDir => (binder.bind webDir diskDir).2
  | .unbind webDir => (binder.unbind webDir).2
  | .clear => binder.clear

def run (binder : WebBinder) (calls : List Call) : WebBinder := calls.foldl step binder

/-- No web name is bound twice. -/
theorem nodup_run (calls : List Call) :
    ((({} : WebBinder).run calls).binds.map Prod.fst).Nodup := by
  refine List.foldlRecOn (motive := fun binder : WebBinder ↦ (binder.binds.map Prod.fst).Nodup)
    calls step List.nodup_nil fun binder hbinder call _ ↦ ?_
  cases call with
  | bind webDir diskDir =>
    simp only [step, bind]
    split
    · exact hbinder
    · split
      · exact hbinder
      · next hnew =>
        rw [List.map_cons, List.nodup_cons]
        refine ⟨fun hmem ↦ hnew ?_, hbinder⟩
        obtain ⟨pair, hpair, hweb⟩ := List.mem_map.mp hmem
        exact List.any_eq_true.mpr ⟨pair, hpair, decide_eq_true hweb⟩
  | unbind webDir =>
    simp only [step, unbind]
    split
    · exact hbinder.sublist (List.eraseP_sublist.map _)
    · exact hbinder
  | clear => exact List.nodup_nil

/-- What a path resolves to, in terms of the binding that is found. -/
theorem getPath_of_findBind {binder : WebBinder} {path webDir diskDir rest : StdString}
    (hpath : path ≠ []) (hfind : binder.findBind path = some (webDir, diskDir))
    (hrest : path = webDir ++ rest) : binder.getPath path = diskDir ++ rest := by
  subst hrest
  simp only [getPath, if_neg hpath, hfind, List.drop_left]

end WebBinder

/-! ## Requests -/

/-- `FileServer::webBind`: an error code becomes an exception. -/
def webBind (webDir diskDir : StdString) (binder : WebBinder) : Except String WebBinder :=
  match binder.bind webDir diskDir with
  | (-1, _) => .error "Web binding exists."
  | (-2, _) => .error "Not a valid web path."
  | (-3, _) => .error "Not a valid disk path."
  | (-4, _) => .error "Not a valid combinaton of web and disk path."
  | (_, binder) => .ok binder

/-- What a request does besides its response. -/
inductive Notice where
  | webStart
  | webFinish
  | indexChange (path : StdString)
  deriving DecidableEq

inductive Response where
  | head
  | error (status : ℕ) (content : StdString)
  | serveInfo (path : StdString)
  | serveContent (path : StdString) (offset : UInt64)
  /-- `std::stoll` throws on an offset that is no number. -/
  | thrown
  deriving DecidableEq

/-- The library functions a request goes through. -/
structure Environment where
  base64Decode : StdString → StdString
  verifyToken : StdString → Bool
  stoll : StdString → Option UInt64

/-- The last value of a parameter counts, and a parameter without `=` is skipped. -/
def parseQueryParams (query : StdString) : AList (fun _ : StdString ↦ StdString) :=
  (query.splitOn 38).foldl (fun params param ↦
    match param.idxOf? 61 with
    | some position => params.insert (param.take position) (param.drop (position + 1))
    | none => params) ∅

/-- The web name a GET request asks for. -/
def requestedName (environment : Environment) (url : StdString) : StdString :=
  let path := StdString.before url (StdString.find (ascii "&token") url)
  environment.base64Decode (StdString.after path (path.idxOf? slash))

def onGet (environment : Environment) (binder : WebBinder) (url : StdString) : Response :=
  let tokenStart := StdString.find (ascii "&token") url
  let path := StdString.before url tokenStart
  let params := parseQueryParams (StdString.after url tokenStart)
  let name := requestedName environment url
  let token := (params.lookup (ascii "token")).getD []
  let method := StdString.before path (path.idxOf? slash)
  if environment.verifyToken token then
    let diskpath := binder.getPath name
    if diskpath = [] then .error 404 (ascii "Not found.")
    else if (StdString.find (ascii "info") method).isSome then .serveInfo diskpath
    else if (StdString.find (ascii "download") method).isSome then
      let offset := (params.lookup (ascii "offset")).getD []
      if offset = [] then .serveContent diskpath 0
      else
        match environment.stoll offset with
        | some value => .serveContent diskpath value
        | none => .thrown
    else .error 500 (ascii "Unsupported HTTP request: " ++ method)
  else .error 404 (ascii "Invalid auth token!")

def onHead (binder : WebBinder) (key : StdString) : List Notice × Response :=
  match key.idxOf? 62 with
  | none => ([], .head)
  | some position =>
    let method := key.take position
    if method = ascii "webstart" then ([.webStart], .head)
    else if method = ascii "webfinish" then ([.webFinish], .head)
    else if method = ascii "webindex" then
      let diskpath := binder.getPath (key.drop (position + 1))
      if diskpath = [] then ([], .error 404 (ascii "Not found."))
      else if binder.containWeb key then ([.indexChange diskpath], .head)
      else ([], .head)
    else ([], .head)

def onReceivedRequest (environment : Environment) (binder : WebBinder) (method url : StdString) :
    List Notice × Response :=
  if method = ascii "HEAD" then onHead binder url
  else if method = ascii "GET" then ([], onGet environment binder url)
  else ([], .error 500 (ascii "Unsupported HTTP method: " ++ method))

end DdeCooperation.Web
