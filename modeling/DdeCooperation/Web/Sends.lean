import DdeCooperation.Foundations.Bimap
import DdeCooperation.Foundations.Runs
import DdeCooperation.Web.Offer
import Mathlib.Data.List.MinMax
import Mathlib.Data.List.Sort

/-!
# Several sends at a time

The bindings and the tokens belong to the process, not to a worker. Each `tryStartSend` whose
server starts, and each `stop` of a worker with a server, clears both for all workers. So a send
stays intact exactly as long as no such call comes, from whichever worker. For the same reason
a token gives access to nothing but what was offered with it: whatever clears the bindings
clears the tokens.
-/

namespace DdeCooperation.Web.Sends

open Foundations List

variable {now key : ℕ}

/-! ## Tokens -/

structure KeyPair where
  /-- The pair of keys that has been generated. -/
  key : ℕ
  expireTime : ℕ
  deriving DecidableEq

abbrev TokenCache := AList (fun _ : StdString ↦ KeyPair)

/-- A signed token, as it is decoded. -/
structure Token where
  jti : StdString
  key : ℕ
  expireTime : ℕ
  web : List StdString
  deriving DecidableEq

/-- What a new token is made of: the time, the identifier and the keys, if they can be generated. -/
structure Issue where
  now : ℕ
  jti : StdString
  key : Option ℕ

def expiry : ℕ := 36000

def MAX_CACHE_SIZE : ℕ := 600

namespace TokenCache

def cleanupExpiredTokens (now : ℕ) (cache : TokenCache) : TokenCache :=
  ⟨cache.entries.filter fun entry ↦ now < entry.2.expireTime,
    cache.nodupKeys.sublist List.filter_sublist⟩

/-- The first key, in their order, of those that expire first. -/
def oldest (cache : TokenCache) : Option StdString :=
  (cache.keys.insertionSort fun a b ↦ a ≤ b).argmin fun jti ↦
    ((cache.lookup jti).map KeyPair.expireTime).getD 0

def makeRoom (cache : TokenCache) : TokenCache :=
  if MAX_CACHE_SIZE ≤ cache.entries.length then
    match oldest cache with
    | some jti => cache.erase jti
    | none => cache
  else cache

def genToken (issue : Issue) (info : List StdString) (cache : TokenCache) :
    TokenCache × Option Token :=
  match issue.key with
  | none => (cache, none)
  | some key =>
    let expireTime := issue.now + expiry
    let cache := makeRoom (cleanupExpiredTokens issue.now cache)
    (cache.insert issue.jti ⟨key, expireTime⟩, some ⟨issue.jti, key, expireTime, info⟩)

/-- The signature is checked with the keys of the cache, and the time against the token's. -/
def verifyToken (now : ℕ) (token : Token) (cache : TokenCache) : Bool :=
  match (cleanupExpiredTokens now cache).lookup token.jti with
  | some pair => pair.key = token.key && now ≤ token.expireTime
  | none => false

variable {cache : TokenCache}

theorem lookup_cleanupExpiredTokens {jti : StdString} {pair : KeyPair} :
    (cleanupExpiredTokens now cache).lookup jti = some pair ↔
      cache.lookup jti = some pair ∧ now < pair.expireTime := by
  rw [← Option.mem_def, ← Option.mem_def, AList.mem_lookup_iff, AList.mem_lookup_iff,
    cleanupExpiredTokens, mem_filter, decide_eq_true_iff]

theorem verifyToken_eq_true {token : Token} :
    verifyToken now token cache = true ↔ ∃ pair, cache.lookup token.jti = some pair ∧
      now < pair.expireTime ∧ pair.key = token.key ∧ now ≤ token.expireTime := by
  rw [verifyToken]
  split
  · next pair hlookup =>
    rw [lookup_cleanupExpiredTokens] at hlookup
    rw [Bool.and_eq_true, decide_eq_true_iff, decide_eq_true_iff]
    constructor
    · intro h
      exact ⟨pair, hlookup.1, hlookup.2, h⟩
    · rintro ⟨other, hother, -, h⟩
      rw [hlookup.1] at hother
      cases hother
      exact h
  · next hnone =>
    refine iff_of_false Bool.false_ne_true ?_
    rintro ⟨pair, hlookup, hnow, -⟩
    rw [lookup_cleanupExpiredTokens.mpr ⟨hlookup, hnow⟩] at hnone
    cases hnone

/-- In an empty cache there is room. -/
theorem genToken_empty {issue : Issue} (hkey : issue.key = some key) (info : List StdString) :
    genToken issue info ∅ = ((∅ : TokenCache).insert issue.jti ⟨key, issue.now + expiry⟩,
      some ⟨issue.jti, key, issue.now + expiry, info⟩) := by
  rw [genToken, hkey]
  rfl

end TokenCache

/-! ## Workers -/

/-- The members of a `TransferWorker`, where `fileServer` says that it has a server. -/
structure Member where
  singleFile : Bool := false
  recvPath : StdString := []
  canceled : Bool := false
  fileServer : Bool := false

/-- A send that has been started, with what it announced. -/
structure Send where
  worker : ℕ
  names : List StdString
  paths : List StdString
  token : Option Token

structure State where
  binder : WebBinder := {}
  cache : TokenCache := ∅
  member : ℕ → Member := fun _ ↦ {}
  /-- The latest time that has been asked for. -/
  clock : ℕ := 0
  /-- The sends so far; the program does not keep them. -/
  sends : List Send := []

/-- The bindings and the tokens, of whichever worker. -/
def clearBind (s : State) : State := { s with binder := s.binder.clear, cache := ∅ }

/-- `tryStartSend` of a worker: the loop over the paths is that of one worker. -/
def startSend (worker : ℕ) (host : Host) (paths : List StdString) (issue : Issue) (s : State) : State :=
  let member := s.member worker
  let (done, result) :=
    Web.tryStartSend host ⟨member.singleFile, member.recvPath, member.canceled, s.binder⟩ paths
  let member : Member := ⟨done.singleFile, done.recvPath, done.canceled, true⟩
  let s := { s with member := Function.update s.member worker member }
  match result with
  | none => s
  | some (names, _) =>
    let s := clearBind s
    let (cache, token) := TokenCache.genToken issue names s.cache
    { s with
      binder := done.binder
      cache := cache
      clock := max s.clock issue.now
      sends := s.sends ++ [⟨worker, names, paths, token⟩] }

def stopWorker (worker : ℕ) (s : State) : State :=
  let member := { s.member worker with canceled := true }
  let s := { s with member := Function.update s.member worker member }
  if (s.member worker).fileServer then clearBind s else s

inductive Call where
  | tryStartSend (worker : ℕ) (host : Host) (paths : List StdString) (issue : Issue)
  | stop (worker : ℕ)
  | verifyToken (now : ℕ)

def step (s : State) : Call → State
  | .tryStartSend worker host paths issue => startSend worker host paths issue s
  | .stop worker => stopWorker worker s
  | .verifyToken now =>
    { s with cache := TokenCache.cleanupExpiredTokens now s.cache, clock := max s.clock now }

def run (s : State) (calls : List Call) : State := calls.foldl step s

/-! ## What a call does to a send -/

/-- The call clears the bindings and the tokens. -/
def clears (s : State) : Call → Bool
  | .tryStartSend _ host _ _ => host.startWeb
  | .stop worker => (s.member worker).fileServer
  | .verifyToken _ => false

/-- The key that a call generates. -/
def issuedKey : Call → Option ℕ
  | .tryStartSend _ host _ issue => if host.startWeb then issue.key else none
  | _ => none

/-- The time that a call asks for. -/
def askedTime : Call → ℕ
  | .tryStartSend _ _ _ issue => issue.now
  | .stop _ => 0
  | .verifyToken now => now

section Calls

variable {s : State} {worker : ℕ} {host : Host} {paths : List StdString} {issue : Issue} {call : Call}
  {token : Token}

theorem tryStartSend_of_startWeb (member : Web.Worker) (paths : List StdString) (h : host.startWeb = true) :
    ∃ done text, Web.tryStartSend host member paths = (done, some (paths.map fileName, text)) ∧
      done.binder = paths.foldl bindPath {} := by
  rcases hresult : Web.tryStartSend host member paths with ⟨done, _ | ⟨names, text⟩⟩
  · rw [Web.tryStartSend] at hresult
    simp [h] at hresult
  · obtain ⟨hbinder, rfl⟩ := tryStartSend_eq_some hresult
    exact ⟨done, text, rfl, hbinder⟩

/-- A send that is started has the bindings and the tokens for itself. -/
theorem startSend_of_startWeb (h : host.startWeb = true) :
    (startSend worker host paths issue s).binder = paths.foldl bindPath {} ∧
      (startSend worker host paths issue s).cache =
        (TokenCache.genToken issue (paths.map fileName) ∅).1 ∧
      (startSend worker host paths issue s).clock = max s.clock issue.now ∧
      (startSend worker host paths issue s).sends = s.sends ++ [⟨worker, paths.map fileName, paths,
        (TokenCache.genToken issue (paths.map fileName) ∅).2⟩] := by
  obtain ⟨done, text, hresult, hbinder⟩ := tryStartSend_of_startWeb
    ⟨(s.member worker).singleFile, (s.member worker).recvPath, (s.member worker).canceled, s.binder⟩
    paths h
  simp only [startSend, hresult]
  exact ⟨hbinder, rfl, rfl, rfl⟩

theorem startSend_of_not_startWeb (h : host.startWeb = false) :
    (startSend worker host paths issue s).binder = s.binder ∧
      (startSend worker host paths issue s).cache = s.cache ∧
      (startSend worker host paths issue s).clock = s.clock ∧
      (startSend worker host paths issue s).sends = s.sends := by
  have hresult : ∀ member : Web.Worker, (Web.tryStartSend host member paths).2 = none := by
    intro member
    simp [Web.tryStartSend, h]
  simp [startSend, hresult]

/-- The token is in the cache, or its time is over. -/
def Kept (token : Token) (s : State) : Prop :=
  s.cache.lookup token.jti = some ⟨token.key, token.expireTime⟩ ∨ token.expireTime ≤ s.clock

theorem startSend_kept (hstart : host.startWeb = true) (hissue : issue.key = some key)
    (hclock : s.clock ≤ issue.now) :
    (startSend worker host paths issue s).binder = paths.foldl bindPath {} ∧
      (startSend worker host paths issue s).clock = issue.now ∧
      Kept ⟨issue.jti, key, issue.now + expiry, paths.map fileName⟩
        (startSend worker host paths issue s) := by
  obtain ⟨hbinder, hcache, hnow, -⟩ := startSend_of_startWeb hstart
  refine ⟨hbinder, hnow.trans (max_eq_right hclock), .inl ?_⟩
  rw [hcache, TokenCache.genToken_empty hissue]
  exact AList.lookup_insert _

theorem Kept.verifyToken (h : Kept token s) (hclock : s.clock ≤ now)
    (hnow : now < token.expireTime) : TokenCache.verifyToken now token s.cache = true := by
  rcases h with hlookup | hover
  · exact TokenCache.verifyToken_eq_true.mpr ⟨_, hlookup, hnow, rfl, hnow.le⟩
  · omega

/-- A call that clears nothing keeps the bindings and the token. -/
theorem step_of_not_clears (h : clears s call = false) :
    (step s call).binder = s.binder ∧ (Kept token s → Kept token (step s call)) := by
  cases call with
  | tryStartSend worker host paths issue =>
    obtain ⟨hbinder, hcache, hclock, -⟩ := startSend_of_not_startWeb h
    refine ⟨hbinder, fun hkept ↦ ?_⟩
    rwa [Kept, step, hcache, hclock]
  | stop worker =>
    have hserver : ((Function.update s.member worker
        { s.member worker with canceled := true }) worker).fileServer = false := by
      rw [Function.update_self]
      exact h
    simp only [step, stopWorker, hserver]
    exact ⟨rfl, id⟩
  | verifyToken now =>
    refine ⟨rfl, fun hkept ↦ ?_⟩
    rcases hkept with hlookup | hover
    · by_cases hnow : now < token.expireTime
      · exact .inl (TokenCache.lookup_cleanupExpiredTokens.mpr ⟨hlookup, hnow⟩)
      · exact .inr ((Nat.le_of_not_lt hnow).trans (le_max_right _ _))
    · exact .inr (hover.trans (le_max_left _ _))

/-- After a call that clears, a token with other keys is not accepted any more. -/
theorem verifyToken_of_clears (h : clears s call = true) (hkey : issuedKey call ≠ some token.key)
    (now : ℕ) : TokenCache.verifyToken now token (step s call).cache = false := by
  rw [Bool.eq_false_iff, ne_eq, TokenCache.verifyToken_eq_true]
  rintro ⟨pair, hlookup, -, hsame, -⟩
  cases call with
  | tryStartSend worker host paths issue =>
    change host.startWeb = true at h
    rw [issuedKey, if_pos h] at hkey
    rw [step, (startSend_of_startWeb h).2.1] at hlookup
    rcases hissue : issue.key with _ | key
    · rw [TokenCache.genToken, hissue] at hlookup
      cases hlookup
    · rw [TokenCache.genToken_empty hissue, Bimap.lookup_insert_eq] at hlookup
      split_ifs at hlookup
      · cases hlookup
        exact hkey (hissue.trans (congrArg some hsame))
      · cases hlookup
  | stop worker =>
    have hserver : ((Function.update s.member worker
        { s.member worker with canceled := true }) worker).fileServer = true := by
      rw [Function.update_self]
      exact h
    simp only [step, stopWorker, hserver] at hlookup
    cases hlookup
  | verifyToken now => cases h

theorem clock_step_le (s : State) (call : Call) :
    (step s call).clock ≤ max s.clock (askedTime call) := by
  cases call with
  | tryStartSend worker host paths issue =>
    by_cases h : host.startWeb = true
    · rw [step, (startSend_of_startWeb h).2.2.1]
      exact Nat.le_refl _
    · rw [step, (startSend_of_not_startWeb (Bool.eq_false_iff.mpr h)).2.2.1]
      exact le_max_left _ _
  | stop worker =>
    simp only [step, stopWorker]
    split_ifs
    · exact le_max_left _ _
    · exact le_max_left _ _
  | verifyToken now => exact Nat.le_refl _

end Calls

/-! ## A send among others -/

section Runs

variable {s : State} {paths : List StdString} {token : Token} {calls : List Call}

/-- The announced names resolve to their paths, and the token is accepted until it expires. -/
structure Intact (isDir : StdString → Prop) (paths : List StdString) (token : Token) (s : State) : Prop where
  resolves : List.Forall₂ (Resolves isDir s.binder) (paths.map fileName) paths
  accepted : ∀ now, s.clock ≤ now → now < token.expireTime →
    TokenCache.verifyToken now token s.cache = true

/-- While nothing is cleared, a send stays intact. -/
theorem intact_run {isDir : StdString → Prop}
    (hresolves : List.Forall₂ (Resolves isDir s.binder) (paths.map fileName) paths)
    (hkept : Kept token s) (hguard : Throughout step (fun s call ↦ clears s call = false) s calls) :
    Intact isDir paths token (run s calls) := by
  have hkeep : ∀ s call,
      List.Forall₂ (Resolves isDir s.binder) (paths.map fileName) paths ∧ Kept token s →
      clears s call = false →
      List.Forall₂ (Resolves isDir (step s call).binder) (paths.map fileName) paths ∧
        Kept token (step s call) := by
    intro s call hs hcall
    obtain ⟨hbinder, hnext⟩ := step_of_not_clears hcall
    rw [hbinder]
    exact ⟨hs.1, hnext hs.2⟩
  have hend := Throughout.invariant_foldl hkeep ⟨hresolves, hkept⟩ hguard
  exact ⟨hend.1, fun now hclock hnow ↦ hend.2.verifyToken hclock hnow⟩

/-- If the token is accepted all the time, nothing has been cleared. -/
theorem not_clears_of_accepted (hclock : s.clock < token.expireTime)
    (htimes : ∀ call ∈ calls, askedTime call < token.expireTime)
    (hkeys : ∀ call ∈ calls, issuedKey call ≠ some token.key)
    (haccepted : ∀ front, front <+: calls → ∀ now, (run s front).clock ≤ now →
      now < token.expireTime → TokenCache.verifyToken now token (run s front).cache = true) :
    Throughout step (fun s call ↦ clears s call = false) s calls := by
  induction calls generalizing s with
  | nil => trivial
  | cons call calls ih =>
    rw [forall_mem_cons] at htimes hkeys
    have hnext : (step s call).clock < token.expireTime :=
      (clock_step_le s call).trans_lt (max_lt hclock htimes.1)
    constructor
    · by_contra hclears
      have hfalse := verifyToken_of_clears (Bool.eq_true_of_not_eq_false hclears) hkeys.1 (step s call).clock
      have htrue := haccepted [call] ⟨calls, rfl⟩ (step s call).clock le_rfl hnext
      rw [run, foldl_cons, foldl_nil, hfalse] at htrue
      cases htrue
    · refine ih hnext htimes.2 hkeys.2 fun front hfront ↦ ?_
      exact haccepted (call :: front) ((prefix_cons_inj call).mpr hfront)

end Runs

/-! ## What a token gives access to -/

section Access

variable {s : State} {call : Call} {calls : List Call}

def sentKey (send : Send) : Option ℕ := send.token.map Token.key

/-- The bindings and the tokens are those of the last send, or there are none. -/
def OfLast (s : State) : Prop :=
  (s.binder.binds = [] ∧ s.cache = ∅) ∨
    ∃ send, s.sends.getLast? = some send ∧
      (∀ pair ∈ s.binder.binds, pair ∈ send.names.zip send.paths) ∧
      ∀ jti pair, s.cache.lookup jti = some pair → sentKey send = some pair.key

theorem binds_bindPath (binder : WebBinder) (path : StdString) :
    bindPath binder path = binder ∨
      (bindPath binder path).binds = (fileName path, path) :: binder.binds := by
  rw [bindPath, webBind, WebBinder.bind]
  split_ifs
  · exact .inl rfl
  · exact .inl rfl
  · exact .inr rfl

variable {pair : StdString × StdString}

/-- Every binding is one of a path under its file name. -/
theorem mem_binds_foldl {paths : List StdString} {binder : WebBinder}
    (h : pair ∈ (paths.foldl bindPath binder).binds) :
    pair ∈ binder.binds ∨ pair ∈ (paths.map fileName).zip paths := by
  induction paths generalizing binder with
  | nil => exact .inl h
  | cons path paths ih =>
    rw [map_cons, zip_cons_cons, mem_cons]
    rcases ih h with hbefore | hlater
    · rcases binds_bindPath binder path with hsame | hnew
      · rw [hsame] at hbefore
        exact .inl hbefore
      · rw [hnew, mem_cons] at hbefore
        rcases hbefore with rfl | hold
        · exact .inr (.inl rfl)
        · exact .inl hold
    · exact .inr (.inr hlater)

theorem lookup_genToken_empty {issue : Issue} {info : List StdString} {jti : StdString} {pair : KeyPair}
    (h : (TokenCache.genToken issue info ∅).1.lookup jti = some pair) :
    ((TokenCache.genToken issue info ∅).2.map Token.key) = some pair.key := by
  rcases hissue : issue.key with _ | key
  · rw [TokenCache.genToken, hissue] at h
    cases h
  · rw [TokenCache.genToken_empty hissue] at h ⊢
    rw [Bimap.lookup_insert_eq] at h
    split_ifs at h
    · cases h
      rfl
    · cases h

theorem OfLast.step (h : OfLast s) (call : Call) : OfLast (step s call) := by
  cases call with
  | tryStartSend worker host paths issue =>
    by_cases hstart : host.startWeb = true
    · obtain ⟨hbinder, hcache, -, hsends⟩ := startSend_of_startWeb hstart
      rw [OfLast, Sends.step, hbinder, hcache, hsends]
      refine .inr ⟨_, getLast?_concat, fun pair hpair ↦ ?_, fun jti pair ↦ lookup_genToken_empty⟩
      exact (mem_binds_foldl hpair).resolve_left not_mem_nil
    · obtain ⟨hbinder, hcache, -, hsends⟩ := startSend_of_not_startWeb (Bool.eq_false_iff.mpr hstart)
      rwa [OfLast, Sends.step, hbinder, hcache, hsends]
  | stop worker =>
    simp only [Sends.step, stopWorker]
    split_ifs
    · exact .inl ⟨rfl, rfl⟩
    · exact h
  | verifyToken now =>
    rcases h with ⟨hbinds, hcache⟩ | ⟨send, hlast, hbinds, hkeys⟩
    · refine .inl ⟨hbinds, ?_⟩
      change TokenCache.cleanupExpiredTokens now s.cache = ∅
      rw [hcache]
      rfl
    · refine .inr ⟨send, hlast, hbinds, fun jti pair hlookup ↦ ?_⟩
      exact hkeys jti pair (TokenCache.lookup_cleanupExpiredTokens.mp hlookup).1

/-- Whatever the workers do, names and tokens are those of the last send, if any. -/
theorem ofLast_run (calls : List Call) : OfLast (run {} calls) :=
  foldlRecOn calls step (.inl ⟨rfl, rfl⟩) fun _ hs call _ ↦ hs.step call

theorem sends_step :
    ((step s call).sends = s.sends ∨
      ∃ send, (step s call).sends = s.sends ++ [send] ∧ sentKey send = issuedKey call) := by
  cases call with
  | tryStartSend worker host paths issue =>
    by_cases hstart : host.startWeb = true
    · refine .inr ⟨_, (startSend_of_startWeb hstart).2.2.2, ?_⟩
      rw [sentKey, issuedKey, if_pos hstart, TokenCache.genToken]
      cases issue.key <;> rfl
    · exact .inl (startSend_of_not_startWeb (Bool.eq_false_iff.mpr hstart)).2.2.2
  | stop worker =>
    left
    simp only [step, stopWorker]
    split_ifs <;> rfl
  | verifyToken now => exact .inl rfl

/-- The keys of the sends have been generated, each by a call of its own. -/
theorem sublist_keys (s : State) (calls : List Call) :
    ((run s calls).sends.filterMap sentKey).Sublist
      (s.sends.filterMap sentKey ++ calls.filterMap issuedKey) := by
  induction calls generalizing s with
  | nil => simp [run]
  | cons call calls ih =>
    refine (ih (step s call)).trans ?_
    rcases sends_step with hsame | ⟨send, hnew, hkey⟩
    · rw [hsame, filterMap_cons]
      refine (List.Sublist.refl _).append ?_
      cases issuedKey call with
      | none => exact List.Sublist.refl _
      | some key => exact sublist_cons_self _ _
    · rw [hnew, filterMap_append, append_assoc, filterMap_cons, filterMap_cons, hkey]
      cases issuedKey call with
      | none | some key => exact List.Sublist.refl _

variable {send : Send}

theorem eq_of_sentKey {sends : List Send} (hnodup : (sends.filterMap sentKey).Nodup) {other : Send}
    (hsend : send ∈ sends) (hother : other ∈ sends) (hkey : sentKey send = some key)
    (hsame : sentKey other = some key) : send = other := by
  induction sends with
  | nil => cases hsend
  | cons first sends ih =>
    rw [filterMap_cons] at hnodup
    have hlater : ∀ later ∈ sends, sentKey later = some key → sentKey first ≠ some key := by
      intro later hmem hlaterKey hfirst
      rw [hfirst] at hnodup
      exact (nodup_cons.mp hnodup).1 (mem_filterMap.mpr ⟨later, hmem, hlaterKey⟩)
    have hrest : (sends.filterMap sentKey).Nodup := by
      cases hfirst : sentKey first with
      | none => rwa [hfirst] at hnodup
      | some key =>
        rw [hfirst] at hnodup
        exact (nodup_cons.mp hnodup).2
    rcases mem_cons.mp hsend with rfl | hsendLater
    · rcases mem_cons.mp hother with rfl | hotherLater
      · rfl
      · exact absurd hkey (hlater other hotherLater hsame)
    · rcases mem_cons.mp hother with rfl | hotherLater
      · exact absurd hsame (hlater send hsendLater hkey)
      · exact ih hrest hsendLater hotherLater

variable {token : Token}

/-- Whatever has been called, an accepted token comes with the bindings of its own send. -/
theorem binds_of_accepted (hkeys : (calls.filterMap issuedKey).Nodup)
    (hsend : send ∈ (run {} calls).sends) (htoken : send.token = some token)
    (haccepted : TokenCache.verifyToken now token (run {} calls).cache = true)
    (hpair : pair ∈ (run {} calls).binder.binds) : pair ∈ send.names.zip send.paths := by
  have hlast : OfLast (run {} calls) :=
    foldlRecOn calls step (.inl ⟨rfl, rfl⟩) fun _ hs call _ ↦ hs.step call
  obtain ⟨found, hlookup, -, hkey, -⟩ := TokenCache.verifyToken_eq_true.mp haccepted
  rcases hlast with ⟨-, hcache⟩ | ⟨last, hlast, hbinds, hcacheKeys⟩
  · rw [hcache] at hlookup
    cases hlookup
  · have hnodup : ((run {} calls).sends.filterMap sentKey).Nodup :=
      hkeys.sublist (by simpa using sublist_keys {} calls)
    have hsame : sentKey send = some token.key := by rw [sentKey, htoken, Option.map_some]
    have hlastKey := hcacheKeys _ _ hlookup
    rw [hkey] at hlastKey
    rw [eq_of_sentKey hnodup hsend (mem_of_getLast? hlast) hsame hlastKey]
    exact hbinds pair hpair

/-- What a request with an accepted token reaches has been offered with the token. -/
theorem getPath_of_accepted (hkeys : (calls.filterMap issuedKey).Nodup)
    (hsend : send ∈ (run {} calls).sends) (htoken : send.token = some token)
    (haccepted : TokenCache.verifyToken now token (run {} calls).cache = true) (name : StdString) :
    (run {} calls).binder.getPath name = [] ∨ ∃ pair ∈ send.names.zip send.paths, pair.1 <+: name ∧
        (run {} calls).binder.getPath name = pair.2 ++ name.drop pair.1.length := by
  rw [WebBinder.getPath]
  split_ifs
  · exact .inl rfl
  · split
    · next webDir diskDir hfind =>
      have hmem := mem_of_find?_eq_some hfind
      have hprefix : webDir <+: name := by simpa using find?_some hfind
      exact .inr ⟨_, binds_of_accepted hkeys hsend htoken haccepted hmem, hprefix, rfl⟩
    · exact .inl rfl

end Access

theorem clock_run_le {s : State} {calls : List Call} {bound : ℕ} (hs : s.clock ≤ bound)
    (hcalls : ∀ call ∈ calls, askedTime call ≤ bound) : (run s calls).clock ≤ bound :=
  foldlRecOn calls step hs fun s hclock call hcall ↦
    (clock_step_le s call).trans (max_le hclock (hcalls call hcall))

/-- From its start on, a send is intact if and only if its paths are resolvable and no call clears
the bindings; and in any case a token reaches only what was offered with it. -/
theorem intact_iff_not_clears (isDir : StdString → Prop) {before after : List Call} {worker : ℕ}
    {host : Host} {paths : List StdString} {issue : Issue} {key : ℕ} (hstart : host.startWeb = true)
    (hissue : issue.key = some key) (habsolute : ∀ path ∈ paths, path.head? = some slash)
    (hnodup : paths.Nodup)
    (hkeys : ((before ++ .tryStartSend worker host paths issue :: after).filterMap issuedKey).Nodup)
    (hbefore : ∀ call ∈ before, askedTime call ≤ issue.now)
    (hafter : ∀ call ∈ after, askedTime call < issue.now + expiry) :
    ((∀ front, front <+: after →
        Intact isDir paths ⟨issue.jti, key, issue.now + expiry, paths.map fileName⟩
          (run {} (before ++ .tryStartSend worker host paths issue :: front))) ↔
      Resolvable paths ∧ Throughout step (fun s call ↦ clears s call = false)
        (run {} (before ++ [.tryStartSend worker host paths issue])) after) ∧
    ∀ send ∈ (run {} (before ++ .tryStartSend worker host paths issue :: after)).sends,
      ∀ token ∈ send.token, ∀ now, TokenCache.verifyToken now token
        (run {} (before ++ .tryStartSend worker host paths issue :: after)).cache = true →
      ∀ name, (run {} (before ++ .tryStartSend worker host paths issue :: after)).binder.getPath name = [] ∨
        ∃ pair ∈ send.names.zip send.paths, pair.1 <+: name ∧
          (run {} (before ++ .tryStartSend worker host paths issue :: after)).binder.getPath name =
            pair.2 ++ name.drop pair.1.length := by
  refine ⟨?_, fun send hsend token htoken now haccepted name ↦
    getPath_of_accepted hkeys hsend htoken haccepted name⟩
  set started := run {} (before ++ [.tryStartSend worker host paths issue]) with hstarted
  have hrun : ∀ front, run {} (before ++ .tryStartSend worker host paths issue :: front) =
      run started front := by
    intro front
    rw [hstarted, run, run, run, foldl_append, foldl_append, foldl_cons]
    rfl
  have hstep : started = startSend worker host paths issue (run {} before) := by
    rw [hstarted, run, foldl_append]
    rfl
  obtain ⟨hbinder, hclock, hkept⟩ := startSend_kept hstart hissue
    (clock_run_le (Nat.zero_le _) hbefore : (run {} before).clock ≤ issue.now)
  rw [← hstep] at hbinder hclock hkept
  rw [← forall₂_resolves_iff isDir habsolute hnodup, ← hbinder]
  simp only [hrun]
  constructor
  · intro hintact
    refine ⟨(hintact [] (List.nil_prefix)).resolves, ?_⟩
    have hlater : ∀ call ∈ after, issuedKey call ≠ some key := by
      intro call hcall hsame
      rw [filterMap_append, filterMap_cons, issuedKey, if_pos hstart, hissue] at hkeys
      have hrest := (nodup_append.mp hkeys).2.1
      exact (nodup_cons.mp hrest).1 (mem_filterMap.mpr ⟨call, hcall, hsame⟩)
    refine not_clears_of_accepted ?_ hafter hlater fun front hfront ↦ (hintact front hfront).accepted
    rw [hclock]
    exact Nat.lt_add_of_pos_right (by decide)
  · rintro ⟨hresolves, hguard⟩ front ⟨rest, rfl⟩
    exact intact_run hresolves hkept hguard.of_append

/-- A send of one file, with the number as time and key. -/
def sendOne (worker : ℕ) (path : StdString) (n : ℕ) : Call :=
  .tryStartSend worker idleSender.1 [path] ⟨n, path, some n⟩

def tokenOne (path : StdString) (n : ℕ) : Token := ⟨path, n, n + expiry, [fileName path]⟩

/-- A worker without a server stops: the send of another worker stays intact. -/
theorem intact_iff_not_clears_one :
    Resolvable [ascii "/h/a"] ∧ Intact (fun _ ↦ False) [ascii "/h/a"] (tokenOne (ascii "/h/a") 1)
      (run {} [sendOne 0 (ascii "/h/a") 1, .stop 1, .verifyToken 9]) := by
  have hresolvable : Resolvable [ascii "/h/a"] :=
    ⟨by decide +kernel, by decide +kernel, by decide +kernel⟩
  have hkeys : (([] ++ sendOne 0 (ascii "/h/a") 1 :: [.stop 1, .verifyToken 9]).filterMap
      issuedKey).Nodup := by decide +kernel
  have hguard : Throughout step (fun s call ↦ clears s call = false)
      (run {} ([] ++ [sendOne 0 (ascii "/h/a") 1])) [.stop 1, .verifyToken 9] := by decide +kernel
  refine ⟨hresolvable, ?_⟩
  exact (intact_iff_not_clears (fun _ ↦ False) rfl rfl (by decide +kernel) (by decide +kernel) hkeys
    (by simp) (by simp [askedTime, expiry])).1.mpr ⟨hresolvable, hguard⟩ _ prefix_rfl

/-- A second worker starts to send: the name of the first one does not resolve any more, and its
token is refused. -/
theorem not_intact_two :
    (run {} [sendOne 0 (ascii "/h/a") 1]).binder.getPath (ascii "a") = ascii "/h/a" ∧
      TokenCache.verifyToken 2 (tokenOne (ascii "/h/a") 1)
        (run {} [sendOne 0 (ascii "/h/a") 1]).cache = true ∧
      (run {} [sendOne 0 (ascii "/h/a") 1, sendOne 1 (ascii "/h/b") 2]).binder.getPath (ascii "a") = [] ∧
      TokenCache.verifyToken 2 (tokenOne (ascii "/h/a") 1)
        (run {} [sendOne 0 (ascii "/h/a") 1, sendOne 1 (ascii "/h/b") 2]).cache = false ∧
      ¬ Intact (fun _ ↦ False) [ascii "/h/a"] (tokenOne (ascii "/h/a") 1)
        (run {} [sendOne 0 (ascii "/h/a") 1, sendOne 1 (ascii "/h/b") 2]) := by
  have hrefused : TokenCache.verifyToken 2 (tokenOne (ascii "/h/a") 1)
      (run {} [sendOne 0 (ascii "/h/a") 1, sendOne 1 (ascii "/h/b") 2]).cache = false := by
    decide +kernel
  refine ⟨by decide +kernel, by decide +kernel, by decide +kernel, hrefused, fun hintact ↦ ?_⟩
  have haccepted := hintact.accepted 2 (by decide +kernel) (by decide +kernel)
  rw [hrefused] at haccepted
  cases haccepted

end DdeCooperation.Web.Sends
