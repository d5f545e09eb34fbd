import HttpDecoder.CleanResult
import HttpDecoder.RequestHead

/-!
# The code of a method

The last branch of `GetMethod` is the expression `METUNKNOWN;` where the others return: for a
token that is none of the eight names the caller finds whatever the machine left in place of a
result.

* `methodCode` — the code of a token, as the constants of `Public.h` have it.
* `MethodCall` — a call of `ParseMethodAndUri`; `MethodCall.CodesToken` — it leaves the code
  of the token.
* `requestToken` — the token that `Parse` looks up for a session.
* `method_iff` — **when the code is that of the token**, when two calls agree on it, and when
  `Send` reports one that exists.
-/

namespace HttpDecoder

open CLib CHandle

/-! ## Tokens -/

/-- The token is one of the eight method names. -/
abbrev IsMethod (token : Bytes) : Prop := token ∈ methodCodes.map Prod.fst

/-- The code of a token: its own, or `METUNKNOWN`. -/
def methodCode (token : Bytes) : UInt32 := (methodCodes.lookup token).getD metUnknown

/-- The eight names have the codes from 1 to 8. -/
theorem methodCode_range : ∀ token ∈ methodCodes.map Prod.fst,
    1 ≤ methodCode token ∧ methodCode token ≤ 8 := by decide

theorem methodCode_of_not {token : Bytes} (h : ¬ IsMethod token) :
    methodCode token = metUnknown := by
  have hlookup : methodCodes.lookup token = none := by
    rw [List.lookup_eq_none_iff]
    intro m hm
    rw [bne_iff_ne]
    rintro rfl
    exact h (List.mem_map_of_mem hm)
  rw [methodCode, hlookup]
  rfl

theorem methodCode_le (token : Bytes) : methodCode token ≤ 8 := by
  by_cases h : IsMethod token
  · exact (methodCode_range token h).2
  · rw [methodCode_of_not h]
    decide

/-- `GetMethod` returns the code of the token, if it returns. -/
theorem getMethod_eq (und : UInt32) (token : Bytes) :
    getMethod und token = if IsMethod token then methodCode token else und := by
  by_cases h : IsMethod token
  · rw [if_pos h]
    obtain ⟨m, hm, rfl⟩ := List.mem_map.mp h
    have hcode : ∀ m ∈ methodCodes, methodCode m.1 = m.2 := by decide
    rw [getMethod_of_mem und hm, hcode m hm]
  · rw [if_neg h]
    have hfind : (methodCodes.find? fun m => token = m.1) = none := by
      rw [List.find?_eq_none]
      intro m hm heq
      rw [decide_eq_true_iff] at heq
      exact h (heq ▸ List.mem_map_of_mem hm)
    unfold getMethod
    rw [hfind]

/-! ## One call of `ParseMethodAndUri` -/

/-- The token of the method: what stands before the first space. -/
def methodToken (pBuf : Mem) (len pos : Nat) : Option Bytes :=
  (getBufAt pBuf len pos [sp] []).map Prod.snd

theorem forall_mem_token {token : Bytes} {P : Bytes → Prop} :
    (∀ t ∈ some token, P t) ↔ P token := by simp

/-- A call of `ParseMethodAndUri`. -/
structure MethodCall where
  /-- What a call of `GetMethod` that returns nothing leaves behind. -/
  und : UInt32
  pBuf : Mem
  len : Nat
  pos : Nat
  result : CResult

namespace MethodCall

/-- What it leaves. -/
def run (B : Boost) (x : MethodCall) : Stage CResult :=
  parseMethodAndUri B x.und x.pBuf x.len x.pos x.result

/-- The token it finds. -/
def token (x : MethodCall) : Option Bytes := methodToken x.pBuf x.len x.pos

/-- It leaves the code of the token. -/
def CodesToken (B : Boost) (x : MethodCall) : Prop :=
  ∀ token ∈ x.token, (x.run B).out.method = methodCode token

variable {B : Boost} {x y : MethodCall}

/-- A call that succeeds has found a token and left what `GetMethod` made of it. -/
theorem run_method (h : (x.run B).ok = true) :
    ∃ token, x.token = some token ∧ (x.run B).out.method = getMethod x.und token := by
  unfold run parseMethodAndUri at h ⊢
  unfold MethodCall.token methodToken
  cases hmethod : getBufAt x.pBuf x.len x.pos [sp] [] with
  | none => simp [hmethod] at h
  | some q =>
    refine ⟨q.2, rfl, ?_⟩
    simp only
    -- none of the later exits touches the method
    split
    · rfl
    split
    · rfl
    split <;> rfl

/-- When the code is that of the token. -/
theorem codesToken_iff (h : (x.run B).ok = true) :
    x.CodesToken B ↔ ∀ token ∈ x.token, IsMethod token ∨ x.und = metUnknown := by
  obtain ⟨token, htoken, hmethod⟩ := run_method h
  unfold CodesToken
  rw [htoken, forall_mem_token, forall_mem_token, hmethod, getMethod_eq]
  by_cases hname : IsMethod token
  · rw [if_pos hname]
    exact iff_of_true rfl (Or.inl hname)
  · rw [if_neg hname, methodCode_of_not hname]
    exact (or_iff_right hname).symm

/-- When two calls that find the same token agree. -/
theorem same_iff (hx : (x.run B).ok = true) (hy : (y.run B).ok = true)
    (hsame : x.token = y.token) : (x.run B).out.method = (y.run B).out.method ↔
      (∀ token ∈ x.token, IsMethod token) ∨ x.und = y.und := by
  obtain ⟨token, htoken, hmethod⟩ := run_method hx
  obtain ⟨token', htoken', hmethod'⟩ := run_method hy
  obtain rfl : token = token' := Option.some.inj (htoken.symm.trans (hsame.trans htoken'))
  rw [hmethod, hmethod', getMethod_eq, getMethod_eq, htoken, forall_mem_token]
  by_cases hname : IsMethod token
  · rw [if_pos hname, if_pos hname]
    exact iff_of_true rfl (Or.inl hname)
  · rw [if_neg hname, if_neg hname]
    exact (or_iff_right hname).symm

end MethodCall

/-! ## What `Send` reports -/

/-- The token that `Parse` looks up for a session, if its request is long enough to be
parsed. -/
def requestToken (s : CSession) : Option Bytes :=
  if s.reqBuf.len > 10 then
    s.reqBuf.buf.bind fun req => methodToken req.byte s.reqBuf.len 0
  else none

theorem methodToken_of_scan {pBuf : Mem} {len pos pos' : Nat} {token url version : Bytes}
    (h : scanRequest pBuf len pos = some (token, url, version, pos')) :
    methodToken pBuf len pos = some token := by
  unfold scanRequest at h
  unfold methodToken
  cases hmethod : getBufAt pBuf len pos [sp] [] with
  | none => simp [hmethod] at h
  | some q =>
    obtain ⟨a, method⟩ := q
    simp only [hmethod, Option.bind_eq_bind, Option.bind_some, Option.bind_eq_some_iff] at h
    obtain ⟨_, _, _, _, h⟩ := h
    cases h
    rfl

/-- The method of a record is what `GetMethod` made of the token, or `METUNKNOWN`. -/
theorem method_of_sent {B : Boost} {e : ParseEnv} {s : CSession} (hs : s.Clean) {r : Record}
    (hr : r ∈ (parse B e s).2) :
    r.method = ((requestToken s).map (getMethod e.method)).getD metUnknown := by
  obtain ⟨req, rsp, hreq, -, hrequest, -⟩ := (emits_parse B e hs).fields r hr
  unfold requestToken
  by_cases hlong : s.reqBuf.len > 10
  · obtain ⟨token, text, pos, htokens, hmethod, -⟩ := hrequest.long hlong
    rw [if_pos hlong, hreq, Option.bind_some, methodToken_of_scan htokens]
    exact hmethod
  · rw [if_neg hlong]
    exact (hrequest.short hlong).1

/-- When it is one of the codes there are. -/
theorem method_le_iff {B : Boost} {e : ParseEnv} {s : CSession} (hs : s.Clean) {r : Record}
    (hr : r ∈ (parse B e s).2) :
    r.method ≤ 8 ↔ ∀ token ∈ requestToken s, IsMethod token ∨ e.method ≤ 8 := by
  rw [method_of_sent hs hr]
  cases requestToken s with
  | none =>
    rw [Option.map_none, Option.getD_none]
    exact iff_of_true (by decide) fun token h => absurd h (Option.not_mem_none token)
  | some token =>
    rw [Option.map_some, Option.getD_some, getMethod_eq, forall_mem_token]
    by_cases hname : IsMethod token
    · rw [if_pos hname]
      exact iff_of_true (methodCode_le token) (Or.inl hname)
    · rw [if_neg hname]
      exact (or_iff_right hname).symm

/-- **When the method code is determined by the method token.**  A call of
`ParseMethodAndUri` that succeeds leaves the code of the token exactly if the token is one of
the eight names or what `GetMethod` left in place of a result is `METUNKNOWN`.  Two that find
the same token agree exactly if it is one of the names or they found the same left in place.
And in every run from `Init` a record that `Send` prints has a code up to 8 exactly if no
request was parsed for it, or the token is one of the names, or what was left in place is no
more than 8. -/
theorem method_iff (B : Boost) :
    (∀ x : MethodCall, (x.run B).ok = true →
      (x.CodesToken B ↔ ∀ token ∈ x.token, IsMethod token ∨ x.und = metUnknown)) ∧
    (∀ x y : MethodCall, (x.run B).ok = true → (y.run B).ok = true → x.token = y.token →
      ((x.run B).out.method = (y.run B).out.method ↔
        (∀ token ∈ x.token, IsMethod token) ∨ x.und = y.und)) ∧
    (∀ (ses : Nat → CSession) (now : Int) (xs : List Call),
      ∀ k ∈ ((handleMachine B).run (init ses now) xs).2, ∀ r ∈ k.sent,
        ∃ e : ParseEnv, k.sent = (parse B e k.ses).2 ∧
          (r.method ≤ 8 ↔ ∀ token ∈ requestToken k.ses, IsMethod token ∨ e.method ≤ 8)) := by
  refine ⟨fun x h => MethodCall.codesToken_iff h, fun x y hx hy hsame =>
    MethodCall.same_iff hx hy hsame, ?_⟩
  intro ses now xs k hk r hr
  obtain ⟨hclean, e, hsent⟩ := cleanCall_run B ses now xs hk
  have hsent' : k.sent = (parse B e k.ses).2 := hsent
  rw [hsent'] at hr
  exact ⟨e, hsent', method_le_iff hclean hr⟩

/-- The request line `CCM_POST / HTTP/1.1`. -/
def ccmPostLine : Bytes :=
  requestHead (ascii ['C', 'C', 'M', '_', 'P', 'O', 'S', 'T']) [47]
    (httpSlash ++ ascii ['1', '.', '1']) [lf] []

/-- It is parsed while 4294964224 lies where the result of `GetMethod` is looked for. -/
def ccmPost : MethodCall := ⟨4294964224, memOf ccmPostLine, ccmPostLine.length, 0, CResult.reset⟩

theorem ok_ccmPost : (ccmPost.run Boost.decimal).ok = true := by decide +kernel

theorem method_iff_ccmPost : ccmPost.CodesToken Boost.decimal ↔
    ∀ token ∈ ccmPost.token, IsMethod token ∨ ccmPost.und = metUnknown :=
  (method_iff Boost.decimal).1 ccmPost ok_ccmPost

/-- That is the code it gets. -/
theorem not_codesToken_ccmPost : (ccmPost.run Boost.decimal).ok = true ∧
    (ccmPost.run Boost.decimal).out.method = 4294964224 ∧
    ¬ ccmPost.CodesToken Boost.decimal := by
  have htoken : ccmPost.token = some (ascii ['C', 'C', 'M', '_', 'P', 'O', 'S', 'T']) := by
    decide +kernel
  have hmethod : (ccmPost.run Boost.decimal).out.method = 4294964224 := by decide +kernel
  refine ⟨ok_ccmPost, hmethod, fun hcodes => ?_⟩
  have hcode := hcodes _ htoken
  rw [hmethod] at hcode
  exact absurd hcode (by decide +kernel)

end HttpDecoder
