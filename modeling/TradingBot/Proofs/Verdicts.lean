import TradingBot.Proofs.Requests

/-!
# What becomes of a request

**One request** (`Http.Link.Asked`, `Http.Client.run_get`). A call sends one request, or none if the
server cannot be reached, and takes one reply at most. Its result is the answer that the link gives
at that moment.

**Verdicts** (`Http.Verdict`). An error with its detail, which is a network error exactly under some
condition. The network settings enter in two ways: by the code of an answer, and by fragments of a
text (`Config.Network.Mentions`).

**Outcomes** (`Http.Client.Outcome`). The verdict for each way in which a request may end: no
address, no connection, no answer in time, a connection that is lost, an answer without success, a
body that is cut short, a body that came in full.

**More excuses** (`Config.Network.Widens`). Settings that list more codes or fragments. They make
network errors of API errors, but never touch a body that came in full with success
(`Http.Client.answer_widens`).

**Theorem (`Http.Client.get_asks_once_and_classifies`).** All of this, of any call over any link.
-/

namespace TradingBot

theorem ApiError.detail_of (transient : Bool) (detail : String) :
    (ApiError.of transient detail).detail = detail := by
  cases transient <;> rfl

/-! ## Excuses -/

namespace Config.Network

/-- The text holds one of the fragments; an empty one does not count. -/
def Mentions (n : Network) (text : String) : Prop :=
  ∃ fragment ∈ n.transientMessages, fragment ≠ "" ∧ fragment.toList <:+: text.toList

def Lists (n : Network) (code : Nat) : Prop := ∃ c ∈ n.transientCodes, c.toNat = code

/-- The settings excuse all that the others excuse, and wait as long. -/
structure Widens (n n' : Network) : Prop where
  timeout : n'.timeout = n.timeout
  codes : n.transientCodes ⊆ n'.transientCodes
  messages : n.transientMessages ⊆ n'.transientMessages

variable {n n' : Network} {code : Nat} {text : String}

theorem excuses_text_iff : n.Excuses none text ↔ n.Mentions text := by
  simp [Excuses, Mentions, Text.occursIn, Text.occursInList_iff]

theorem excuses_code_iff : n.Excuses (some code) text ↔ n.Lists code ∨ n.Mentions text := by
  rw [← excuses_text_iff, Excuses, Excuses, Lists]
  simp only [Option.some.injEq, reduceCtorEq, and_false, exists_false, false_or,
    eq_comm (a := code)]

theorem Widens.excuses (h : n.Widens n') {status : Option Nat} (he : n.Excuses status text) :
    n'.Excuses status text := by
  rcases he with ⟨code, hcode, hstatus⟩ | ⟨fragment, hfragment, hin⟩
  · exact .inl ⟨code, h.codes hcode, hstatus⟩
  · exact .inr ⟨fragment, h.messages hfragment, hin⟩

end Config.Network

namespace Http

/-! ## One request -/

/-- What a single request leaves of a link: all of it, or the request has got through and has used
up a reply. -/
def Link.Asked (address : String) (link link' : Link) : Prop :=
  link' = link ∨ ∃ url, Url.parse address = .ok url ∧
    link' = { link with
      replies := link.replies.tail
      requests := link.requests ++ [{ method := .get, path := url.path }] }

def Link.asked (link : Link) (address : String) : Link :=
  match Url.parse address with
  | .error _ => link
  | .ok url =>
    if url.IsHttp then
      match link.reach with
      | .up => (link.take { method := .get, path := url.path }).2
      | .refusing | .down => link
    else link

theorem Link.asked_asked (link : Link) (address : String) :
    link.Asked address (link.asked address) := by
  unfold asked
  cases hurl : Url.parse address with
  | error e => exact .inl rfl
  | ok url =>
    dsimp only
    by_cases hhttp : url.IsHttp
    · rw [if_pos hhttp]
      cases link.reach with
      | refusing | down => exact .inl rfl
      | up => exact .inr ⟨url, hurl, rfl⟩
    · rw [if_neg hhttp]
      exact .inl rfl

theorem Link.run_receive (url : String) (timeout : Nat) (reply : Reply) (now : Timestamp)
    (link : Link) :
    (receive url timeout reply).run now link = (reply.arrival url timeout, link) := by
  unfold receive Reply.arrival
  by_cases hlate : timeout < reply.delay
  · rw [if_pos hlate, if_pos hlate]
    rfl
  · rw [if_neg hlate, if_neg hlate, Program.run_bind]
    cases reply.fate <;> rfl

theorem Link.run_send (address : String) (timeout : Nat) (now : Timestamp) (link : Link) :
    (send address .get timeout).run now link =
      (link.outcome address timeout, link.asked address) := by
  unfold send Link.outcome Link.asked
  cases Url.parse address with
  | error e => rfl
  | ok url =>
    dsimp only
    by_cases hhttp : url.IsHttp
    · rw [if_pos hhttp, if_pos hhttp, if_pos hhttp, Program.run_bind, Program.run_get]
      cases link.reach with
      | refusing | down => rfl
      | up =>
        dsimp only
        rw [Program.run_bind, Program.run_modifyGet, Link.run_receive]
        rfl
    · rw [if_neg hhttp, if_neg hhttp, if_neg hhttp]
      rfl

section

variable {α : Type} {c : Client} {address : String} {decode : Json → Option α} {link : Link}

/-- **A call comes to the answer** of the link, with one request at most. -/
theorem Client.run_get (c : Client) (path : String) (decode : Json → Option α) (now : Timestamp)
    (link : Link) : (c.get path decode).run.run now link =
      ((c.answer (c.address path) decode link).mapError .error, link.asked (c.address path)) := by
  rw [get, ExceptT.run_mk]
  dsimp only
  rw [Program.run_bind, Program.run_tell, Program.run_bind, Link.run_send, answer]
  generalize link.outcome (c.address path) c.timeout = outcome, link.asked (c.address path) = link'
  cases outcome with
  | error failure => rfl
  | ok response =>
    dsimp only
    cases c.interpret decode response with
    | ok a => rfl
    | error e =>
      dsimp only
      split
      · rfl
      · rfl

/-! ## Outcomes -/

/-- The result is an error with this detail, a network error exactly if the condition holds. -/
def Verdict (r : Except ApiError α) (detail : String) (transient : Prop) : Prop :=
  ∃ e, r = .error e ∧ e.detail = detail ∧ (e.isNetwork ↔ transient)

theorem verdict_of (b : Bool) (detail : String) {transient : Prop} (h : b ↔ transient) :
    Verdict (.error (.of b detail) : Except ApiError α) detail transient := by
  refine ⟨_, rfl, ApiError.detail_of b detail, ?_⟩
  rw [← h]
  cases b <;> exact Iff.rfl

/-- The server gets a request to the address, and this is its reply. -/
structure Link.Reaches (link : Link) (address : String) (url : Url) (reply : Reply) : Prop where
  parse : Url.parse address = .ok url
  isHttp : url.IsHttp
  up : link.reach = .up
  reply : reply = link.replies.headD exhausted

/-- The text of a body that could be read, and the empty text otherwise. -/
def Reply.text (reply : Reply) : String :=
  match reply.fate with
  | .whole => Text.decodeLossy reply.body
  | .truncated | .dropped => ""

def sendingTo (url : Url) : String := s!"error sending request for url ({url.text})"

/-- What a client is told, by what the request meets with. -/
structure Client.Outcome (c : Client) (address : String) (decode : Json → Option α) (link : Link)
    (r : Except ApiError α) : Prop where
  noAddress : ∀ e, Url.parse address = .error e →
    Verdict r "builder error" (c.network.Mentions "builder error")
  noHttp : ∀ url, Url.parse address = .ok url → ¬ url.IsHttp →
    Verdict r s!"builder error for url ({url.text})"
      (c.network.Mentions s!"builder error for url ({url.text})")
  /-- Whatever the settings say. -/
  noConnection : ∀ url, Url.parse address = .ok url → url.IsHttp → link.reach ≠ .up →
    r = .error (.network (sendingTo url))
  /-- Whatever the settings say. -/
  late : ∀ url reply, link.Reaches address url reply → c.timeout < reply.delay →
    r = .error (.network (sendingTo url))
  dropped : ∀ url reply, link.Reaches address url reply → reply.delay ≤ c.timeout →
    reply.fate = .dropped → Verdict r (sendingTo url) (c.network.Mentions (sendingTo url))
  failed : ∀ url reply, link.Reaches address url reply → reply.delay ≤ c.timeout →
    reply.fate ≠ .dropped → ¬ reply.status.IsSuccess →
    Verdict r s!"HTTP {reply.status.text} - {reply.text}"
      (c.network.Lists reply.status.code ∨ c.network.Mentions reply.text)
  truncated : ∀ url reply, link.Reaches address url reply → reply.delay ≤ c.timeout →
    reply.fate = .truncated → reply.status.IsSuccess →
    Verdict r "error decoding response body" (c.network.Mentions "error decoding response body")
  /-- Whatever the settings say, also of this code and this body. In the message, `<json>` stands
  for the JSON reader's own words. -/
  whole : ∀ url reply, link.Reaches address url reply → reply.delay ≤ c.timeout →
    reply.fate = .whole → reply.status.IsSuccess →
    (∀ a, (Json.parse reply.text).bind decode = some a → r = .ok a) ∧
      ((Json.parse reply.text).bind decode = none →
        r = .error (.api s!"Failed to parse exchange response: <json> - {reply.text}"))

theorem Link.Reaches.outcome {url : Url} {reply : Reply} (h : link.Reaches address url reply)
    (timeout : Nat) : link.outcome address timeout = reply.arrival url.text timeout := by
  rw [Link.outcome, h.parse]
  dsimp only
  rw [if_pos h.isHttp, h.up, h.reply]

theorem detail_classify (failure : TransportFailure) (n : Config.Network) :
    (failure.classify n).detail = failure.message :=
  ApiError.detail_of _ _

theorem TransportFailure.verdict {failure : TransportFailure} (h : failure.isTransient = false)
    (n : Config.Network) :
    Verdict (.error (failure.classify n) : Except ApiError α) failure.message
      (n.Mentions failure.message) := by
  refine verdict_of _ _ ?_
  rw [h, Bool.false_or, decide_eq_true_iff]
  exact Config.Network.excuses_text_iff

theorem TransportFailure.network_of_isTransient {failure : TransportFailure}
    (h : failure.isTransient = true) (n : Config.Network) :
    (.error (failure.classify n) : Except ApiError α) = .error (.network failure.message) := by
  rw [classify, h]
  rfl

theorem Client.interpret_of_not_isSuccess {response : Response} {text : String}
    (htext : (response.body?.map Text.decodeLossy).getD "" = text)
    (h : ¬ response.status.IsSuccess) :
    Verdict (c.interpret decode response) s!"HTTP {response.status.text} - {text}"
      (c.network.Lists response.status.code ∨ c.network.Mentions text) := by
  rw [interpret, if_neg h, htext]
  refine verdict_of _ _ ?_
  rw [decide_eq_true_iff]
  exact Config.Network.excuses_code_iff

/-- What is answered is the outcome that the request meets with. -/
theorem Client.outcome_answer (c : Client) (address : String) (decode : Json → Option α)
    (link : Link) : c.Outcome address decode link (c.answer address decode link) where
  -- Each field is one branch of `Link.outcome`, or of `interpret` where there is a response.
  noAddress e he := by
    rw [answer, Link.outcome, he]
    exact TransportFailure.verdict rfl c.network
  noHttp url hurl hhttp := by
    rw [answer, Link.outcome, hurl]
    dsimp only
    rw [if_neg hhttp]
    exact TransportFailure.verdict rfl c.network
  noConnection url hurl hhttp hreach := by
    rw [answer, Link.outcome, hurl]
    dsimp only
    rw [if_pos hhttp]
    cases hr : link.reach with
    | up => exact absurd hr hreach
    | refusing | down => exact TransportFailure.network_of_isTransient rfl c.network
  late url reply h hlate := by
    rw [answer, h.outcome, Reply.arrival, if_pos hlate]
    exact TransportFailure.network_of_isTransient rfl c.network
  dropped url reply h hintime hfate := by
    rw [answer, h.outcome, Reply.arrival, if_neg (Nat.not_lt.mpr hintime), hfate]
    exact TransportFailure.verdict rfl c.network
  failed url reply h hintime hfate hstatus := by
    rw [answer, h.outcome, Reply.arrival, if_neg (Nat.not_lt.mpr hintime), Reply.text]
    cases hf : reply.fate with
    | dropped => exact absurd hf hfate
    | whole | truncated => exact Client.interpret_of_not_isSuccess rfl hstatus
  truncated url reply h hintime hfate hstatus := by
    rw [answer, h.outcome, Reply.arrival, if_neg (Nat.not_lt.mpr hintime), hfate]
    dsimp only
    rw [interpret, if_pos hstatus]
    exact TransportFailure.verdict rfl c.network
  whole url reply h hintime hfate hstatus := by
    rw [answer, h.outcome, Reply.arrival, if_neg (Nat.not_lt.mpr hintime), Reply.text, hfate]
    dsimp only
    rw [interpret, if_pos hstatus]
    dsimp only [Option.map_some]
    constructor
    · intro a ha
      rw [ha]
    · intro hnone
      rw [hnone]

/-! ## More excuses -/

/-- A reply with success, and its body in full, is there in time. -/
def Client.Served (c : Client) (address : String) (link : Link) : Prop :=
  ∃ url reply, link.Reaches address url reply ∧ reply.delay ≤ c.timeout ∧ reply.fate = .whole ∧
    reply.status.IsSuccess

/-- The results are the same, or an API error of a failed request has become a network error. -/
def Client.Excused (c : Client) (address : String) (link : Link) (r r' : Except ApiError α) :
    Prop :=
  r' = r ∨ ¬ c.Served address link ∧
    ∃ detail, r = .error (.api detail) ∧ r' = .error (.network detail)

theorem Client.Served.outcome (h : c.Served address link) : ∃ response body,
    link.outcome address c.timeout = .ok response ∧ response.status.IsSuccess ∧
      response.body? = some body := by
  obtain ⟨url, reply, hreach, hintime, hfate, hstatus⟩ := h
  refine ⟨{ status := reply.status, body? := some reply.body }, reply.body, ?_, hstatus, rfl⟩
  rw [hreach.outcome, Reply.arrival, if_neg (Nat.not_lt.mpr hintime), hfate]

/-- Where more is excused, an error stays as it is or becomes a network error. -/
theorem Client.excused_of {b b' : Bool} (hb : b → b') (detail : String)
    (hfailed : ¬ c.Served address link) :
    c.Excused address link (.error (.of b detail) : Except ApiError α)
      (.error (.of b' detail)) := by
  cases b with
  | true => exact .inl (by rw [hb rfl])
  | false =>
    cases b' with
    | true => exact .inr ⟨hfailed, detail, rfl, rfl⟩
    | false => exact .inl rfl

/-- **More excuses** only make network errors of API errors, and of those of failed requests. -/
theorem Client.answer_widens {n : Config.Network} (h : c.network.Widens n) (address : String)
    (decode : Json → Option α) (link : Link) :
    c.Excused address link (c.answer address decode link)
      (({ c with network := n } : Client).answer address decode link) := by
  have htimeout : ({ c with network := n } : Client).timeout = c.timeout := by
    simp only [timeout, h.timeout]
  rw [answer, answer, htimeout]
  -- Both clients meet with the same outcome of the link, and differ in how they classify it.
  by_cases hserved : c.Served address link
  · -- A body in full is read the same whatever the settings are.
    obtain ⟨response, body, hok, hstatus, hbody⟩ := hserved.outcome
    rw [hok]
    dsimp only
    rw [interpret, interpret, if_pos hstatus, if_pos hstatus, hbody]
    exact .inl rfl
  · cases link.outcome address c.timeout with
    | error failure =>
      refine Client.excused_of ?_ failure.message hserved
      simp only [Bool.or_eq_true, decide_eq_true_iff]
      exact Or.imp_right h.excuses
    | ok response =>
      dsimp only
      by_cases hstatus : response.status.IsSuccess
      · rw [interpret, interpret, if_pos hstatus, if_pos hstatus]
        cases response.body? with
        | some body => exact .inl rfl
        | none =>
          refine Client.excused_of ?_ _ hserved
          simp only [Bool.or_eq_true, decide_eq_true_iff]
          exact Or.imp_right h.excuses
      · rw [interpret, interpret, if_neg hstatus, if_neg hstatus]
        refine Client.excused_of ?_ _ hserved
        simp only [decide_eq_true_iff]
        exact h.excuses

/-! ## The whole of it -/

/-- **What a call comes to**, over any link: one request at most, the verdict of its outcome, and
with more excuses the same but for API errors of failed requests. -/
theorem Client.get_asks_once_and_classifies (c : Client) (path : String)
    (decode : Json → Option α) (now : Timestamp) (link : Link) :
    ∃ r link', (c.get path decode).run.run now link = (r.mapError .error, link') ∧
      link.Asked (c.address path) link' ∧ c.Outcome (c.address path) decode link r ∧
      ∀ n, c.network.Widens n → ∃ r',
        (({ c with network := n } : Client).get path decode).run.run now link =
          (r'.mapError .error, link') ∧ c.Excused (c.address path) link r r' :=
  ⟨_, _, c.run_get path decode now link, link.asked_asked _, c.outcome_answer _ decode link,
    fun n hn => ⟨_, Client.run_get { c with network := n } path decode now link,
      c.answer_widens hn _ decode link⟩⟩

end

end Http

namespace Rehearsed

open Http

/-- A client that excuses nothing. -/
def strict : Client := { base := "http://exchange.test", network := {} }

/-- A server that is overloaded for one request. -/
def overloaded : Link :=
  { replies := [{ status := { code := 429 }, body := "try later".toUTF8.toList }] }

/-- The code of the overload counts as transient. -/
def lenient : Client := { strict with network := { transientCodes := [429] } }

def onTheHour : Timestamp := { seconds := 3600, nanos := 0 }

theorem get_rehearsed : strict.network.Widens lenient.network ∧ ∃ r r' link',
    (strict.get "/ticker" Json.text?).run.run onTheHour overloaded =
        (r.mapError .error, link') ∧
      (lenient.get "/ticker" Json.text?).run.run onTheHour overloaded =
        (r'.mapError .error, link') ∧
      r = .error (.api "HTTP 429 Too Many Requests - try later") ∧
      r' = .error (.network "HTTP 429 Too Many Requests - try later") ∧
      strict.Outcome "http://exchange.test/ticker" Json.text? overloaded r ∧
      strict.Excused "http://exchange.test/ticker" overloaded r r' := by
  have hwider : strict.network.Widens lenient.network :=
    ⟨rfl, List.nil_subset _, List.nil_subset _⟩
  obtain ⟨r, link', hrun, -, houtcome, hall⟩ :=
    strict.get_asks_once_and_classifies "/ticker" Json.text? onTheHour overloaded
  obtain ⟨r', hrun', hexcused⟩ := hall lenient.network hwider
  have hstrict : ((strict.get "/ticker" Json.text?).run.run onTheHour overloaded).1 =
      .error (.error (.api "HTTP 429 Too Many Requests - try later")) := by decide +kernel
  have hlenient : ((lenient.get "/ticker" Json.text?).run.run onTheHour overloaded).1 =
      .error (.error (.network "HTTP 429 Too Many Requests - try later")) := by decide +kernel
  have herror {r : Except ApiError String} {e : ApiError}
      (h : r.mapError Fault.error = .error (.error e)) : r = .error e := by
    cases r <;> cases h
    rfl
  refine ⟨hwider, r, r', link', hrun, hrun', herror ?_, herror ?_, houtcome, hexcused⟩
  · exact (congrArg Prod.fst hrun).symm.trans hstrict
  · exact (congrArg Prod.fst hrun').symm.trans hlenient

end Rehearsed

end TradingBot
