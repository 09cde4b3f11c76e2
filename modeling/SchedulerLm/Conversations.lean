import SchedulerLm.Base.Retrying
import SchedulerLm.ParseErrors
import SchedulerLm.Schedulable

/-!
# Conversations with the model

`_call_llm` and the retries around it, with what the model is sent. An attempt asks for each
of the formats of a response in turn, until a call does not raise; where its reply is refused,
a message that quotes the error is added for the next attempt, which is sent all of them.
The attempts end with the first one that has a specification, or with the last one there
may be (`converse_spec`). What they come to is what the replies come to that are refused or
not, whatever the messages (`parseTriggerTextToSpec_eq_converse`).
-/

namespace SchedulerLm

open Zones

/-! ## Messages -/

/-- The formats a response is asked for in. -/
inductive ResponseFormat
  | jsonSchema
  | jsonObject
  deriving DecidableEq

/-- `response_formats`; the last call asks for none. -/
def responseFormats : List (Option ResponseFormat) := [some .jsonSchema, some .jsonObject, none]

inductive Role
  | system
  | user
  deriving DecidableEq

structure Message where
  role : Role
  content : String
  deriving DecidableEq

/-- What a call of `completion` is given. -/
structure CompletionCall where
  messages : List Message
  responseFormat : Option ResponseFormat
  deriving DecidableEq

/-- What a call of `completion` comes to: it raises an exception with a text, or returns a
    content, if there is one. -/
inductive Completion
  | raises (text : String)
  | returns (content : Option String)
  deriving DecidableEq

/-- The call raises. -/
def Completion.isRaised : Completion → Bool
  | raises _ => true
  | returns _ => false

/-- What an attempt raises, with its text. -/
structure AttemptError where
  exn : ParseExn
  text : String
  deriving DecidableEq

/-- What the calls of `completion` come to, one after another, when their replies are parsed, and
    the texts of what is raised for these. -/
structure Replies where
  completion : ℕ → Completion
  clock : ℕ → Instant
  describe : ℕ → ParseExn → String

/-- The messages, and the requests that have been made, attempt by attempt. -/
structure Conversation where
  messages : List Message
  attempts : List (List CompletionCall)
  deriving DecidableEq

/-- The calls of `completion` so far. -/
def Conversation.calls (c : Conversation) : ℕ := c.attempts.flatten.length

/-- The first messages: the prompt, and the text of the trigger. -/
def opening (prompt text : String) : Conversation := ⟨[⟨.system, prompt⟩, ⟨.user, text⟩], []⟩

/-- The message after an error. -/
def correction (f : AttemptError) : Message where
  role := .user
  content := "Your previous response was invalid: " ++ f.text ++ ". Return corrected JSON only."

/-! ## Attempts -/

variable (lib : ParseLib) (timezone : String) (replies : Replies)

/-- `_call_llm`, from the `n`-th call on, after an exception with the text `last`: the reply and
    the number of its call, and the formats that have been asked for. -/
def callLlmFrom : ℕ → String → List (Option ResponseFormat) →
    Except AttemptError (ℕ × String) × List (Option ResponseFormat)
  | _, last, [] => (.error ⟨.triggerParseError .requestFailed, "LLM request failed: " ++ last⟩, [])
  | n, _, format :: formats =>
    match replies.completion n with
    | .raises text =>
      ((callLlmFrom (n + 1) text formats).1, format :: (callLlmFrom (n + 1) text formats).2)
    | .returns content =>
      (((extractContent lib content).mapError fun e => ⟨e, "LLM returned empty response"⟩).map
        fun raw => (n, raw), [format])

/-- `_parse_once`: the messages are sent, and the reply is parsed. -/
def sendOnce (c : Conversation) : Except AttemptError StructuredTriggerSpec × Conversation :=
  let (reply, formats) := callLlmFrom lib replies c.calls "None" responseFormats
  (reply.bind fun (n, raw) =>
      (parseTriggerJson lib timezone (replies.clock n) raw).mapError fun e =>
        ⟨e, replies.describe n e⟩,
    { c with attempts := c.attempts ++ [formats.map (CompletionCall.mk c.messages)] })

/-- `_before_sleep`. -/
def beforeSleep (f : AttemptError) (c : Conversation) : Conversation :=
  { c with messages := c.messages ++ [correction f] }

/-- The attempts, with up to `n` more after the first one. -/
def converse (n : ℕ) (c : Conversation) :
    Except AttemptError StructuredTriggerSpec × Conversation :=
  Retrying.run (fun f => f.exn.isTriggerParseError) beforeSleep (sendOnce lib timezone replies) n c

/-- `parse_trigger_text_to_spec` at the time `now`, with the rendered prompt, and the requests
    that are made. -/
def converseTriggerTextToSpec (now : Instant) (settings : LLMSettings) (prompt text : String) :
    Except ParseExn StructuredTriggerSpec × List (List CompletionCall) :=
  if lib.crontab.zones timezone then
    match relativeRunAt lib timezone now text with
    | .error e => (.error (.below e), [])
    | .ok (some runAt) =>
      match computeNextRunAt lib.crontab now (onceAt (lib.zoneInfo timezone) runAt) with
      | .error e => (.error (.triggerParseError (.cannotBeScheduled e)), [])
      | .ok _ => (.ok (onceAt (lib.zoneInfo timezone) runAt), [])
    | .ok none =>
      match renderTriggerParsePrompt settings (nowIn lib timezone now) with
      | .error e => (.error e, [])
      | .ok () =>
        let (result, c) := converse lib timezone replies settings.maxRetries.toNat
          (opening prompt text)
        (result.mapError AttemptError.exn, c.attempts)
  else (.error (.below .zoneInfoNotFound), [])

/-! ## The attempts of a run without a limit -/

/-- The conversation before the `i`-th attempt, from `c` on. -/
def conversationBefore (c : Conversation) (i : ℕ) : Conversation :=
  (Retrying.next beforeSleep (sendOnce lib timezone replies))^[i] c

/-- What the `i`-th attempt comes to. -/
def outcomeOf (c : Conversation) (i : ℕ) : Except AttemptError StructuredTriggerSpec :=
  (sendOnce lib timezone replies (conversationBefore lib timezone replies c i)).1

/-- From the `n`-th call on, these formats are asked for: all calls but the last raise, and
    the last one does not, unless there are no more formats. -/
structure Tried (n : ℕ) (formats : List (Option ResponseFormat)) : Prop where
  ne_nil : formats ≠ []
  initial : formats <+: responseFormats
  raised : ∀ t, t + 1 < formats.length → (replies.completion (n + t)).isRaised = true
  last :
    formats = responseFormats ∨ (replies.completion (n + (formats.length - 1))).isRaised = false

variable {lib timezone replies} {n i k : ℕ} {last prompt text : String}
  {formats : List (Option ResponseFormat)} {c : Conversation} {settings : LLMSettings}
  {now : Instant}

/-! ## Calls -/

variable (lib replies) in
/-- The formats are asked for in turn, up to the first call that does not raise. -/
theorem callLlmFrom_tried (n : ℕ) (last : String) (formats : List (Option ResponseFormat)) :
    ((callLlmFrom lib replies n last formats).2 = [] → formats = []) ∧
      (callLlmFrom lib replies n last formats).2 <+: formats ∧
      (∀ t, t + 1 < (callLlmFrom lib replies n last formats).2.length →
        (replies.completion (n + t)).isRaised = true) ∧
      ((callLlmFrom lib replies n last formats).2 = formats ∨
        (replies.completion (n + ((callLlmFrom lib replies n last formats).2.length -
          1))).isRaised = false) := by
  induction formats generalizing n last with
  | nil => exact ⟨fun _ => rfl, List.prefix_refl [], fun t ht =>
      absurd ht (by simp [callLlmFrom]), .inl rfl⟩
  | cons format formats ih =>
    rw [callLlmFrom]
    rcases hcall : replies.completion n with text | content
    · obtain ⟨hnil, hinit, hraised, hlast⟩ := ih (n + 1) text
      dsimp only
      refine ⟨fun h => absurd h (by simp), List.cons_prefix_cons.2 ⟨rfl, hinit⟩, ?_, ?_⟩
      · rintro (_ | t) ht
        · rw [Nat.add_zero, hcall]
          rfl
        · rw [Nat.add_comm t, ← Nat.add_assoc]
          exact hraised t (Nat.lt_of_succ_lt_succ ht)
      · rcases hlast with hlast | hlast
        · exact .inl (by rw [hlast])
        · by_cases hempty : (callLlmFrom lib replies (n + 1) text formats).2 = []
          · exact .inl (by rw [hempty, hnil hempty])
          · have hpos := List.length_pos_iff.2 hempty
            refine .inr ?_
            rw [List.length_cons, Nat.add_sub_cancel]
            rwa [Nat.add_assoc, Nat.add_sub_cancel' hpos] at hlast
    · dsimp only
      refine ⟨fun h => absurd h (by simp), List.cons_prefix_cons.2 ⟨rfl, List.nil_prefix⟩,
        ?_, .inr ?_⟩
      · intro t ht
        exact absurd ht (by simp)
      · rw [List.length_singleton, Nat.sub_self, Nat.add_zero, hcall]
        rfl

/-- A reply is the content of a response, without blanks around it. -/
theorem callLlmFrom_eq_ok {raw : String} (h : (callLlmFrom lib replies n last formats).1 =
    .ok (k, raw)) :
    ∃ text, replies.completion k = .returns (some text) ∧ text ≠ "" ∧
      raw = strip lib.unicode text := by
  induction formats generalizing n last with
  | nil => exact absurd h (by simp [callLlmFrom])
  | cons format formats ih =>
    rw [callLlmFrom] at h
    split at h
    · exact ih h
    · rename_i content hcall
      obtain ⟨raw', hraw, heq⟩ := Raising.map_eq_ok.1 h
      obtain ⟨rfl, rfl⟩ := Prod.mk.inj heq
      replace hraw := Raising.mapError_eq_ok.1 hraw
      rw [extractContent.eq_def] at hraw
      split at hraw
      · exact absurd hraw (by simp)
      · split at hraw
        · exact absurd hraw (by simp)
        · rename_i text hne
          exact ⟨text, hcall, hne, (Except.ok.inj hraw).symm⟩

/-- Where there is no reply, the error is one to be retried. -/
theorem callLlmFrom_eq_error {f : AttemptError}
    (h : (callLlmFrom lib replies n last formats).1 = .error f) :
    f.exn.isTriggerParseError = true := by
  induction formats generalizing n last with
  | nil => exact Except.error.inj h ▸ rfl
  | cons format formats ih =>
    rw [callLlmFrom] at h
    split at h
    · exact ih h
    · rename_i content _
      obtain ⟨e, he, rfl⟩ := Raising.mapError_eq_error.1 (Raising.map_eq_error.1 h)
      rw [extractContent.eq_def] at he
      split at he
      · exact Except.error.inj he ▸ rfl
      · split at he
        · exact Except.error.inj he ▸ rfl
        · exact absurd he (by simp)

/-! ## Attempts -/

variable (lib timezone replies) in
/-- The formats the `i`-th attempt asks for. -/
def formatsOf (c : Conversation) (i : ℕ) : List (Option ResponseFormat) :=
  (callLlmFrom lib replies (conversationBefore lib timezone replies c i).calls "None"
    responseFormats).2

variable (lib timezone replies) in
/-- The requests of the `i`-th attempt. -/
def requestsOf (c : Conversation) (i : ℕ) : List CompletionCall :=
  (formatsOf lib timezone replies c i).map
    (CompletionCall.mk (conversationBefore lib timezone replies c i).messages)

theorem conversationBefore_succ : conversationBefore lib timezone replies c (i + 1) =
    Retrying.next beforeSleep (sendOnce lib timezone replies)
      (conversationBefore lib timezone replies c i) :=
  Function.iterate_succ_apply' _ i c

theorem outcomeOf_eq : outcomeOf lib timezone replies c i =
    (callLlmFrom lib replies (conversationBefore lib timezone replies c i).calls "None"
      responseFormats).1.bind
      fun reply => (parseTriggerJson lib timezone (replies.clock reply.1) reply.2).mapError fun e =>
        ⟨e, replies.describe reply.1 e⟩ := rfl

/-- An attempt adds its requests. -/
theorem attempts_sendOnce :
    (sendOnce lib timezone replies (conversationBefore lib timezone replies c i)).2.attempts =
      (conversationBefore lib timezone replies c i).attempts ++
        [requestsOf lib timezone replies c i] := rfl

theorem attempts_succ : (conversationBefore lib timezone replies c (i + 1)).attempts =
    (conversationBefore lib timezone replies c i).attempts ++
      [requestsOf lib timezone replies c i] := by
  rw [conversationBefore_succ, Retrying.next]
  split
  · rename_i heq
    rw [← attempts_sendOnce, heq]
  · rename_i heq
    rw [← attempts_sendOnce, heq]
    rfl

theorem attempts_conversationBefore (h : c.attempts = []) (i : ℕ) :
    (conversationBefore lib timezone replies c i).attempts =
      (List.range i).map (requestsOf lib timezone replies c) := by
  induction i with
  | zero => exact h
  | succ i ih => rw [attempts_succ, ih, List.range_succ, List.map_append, List.map_singleton]

/-- Where the attempts so far have failed, their errors have been quoted, one after another. -/
theorem messages_conversationBefore (h : ∀ j < i, ∃ f,
    outcomeOf lib timezone replies c j = .error f) :
    ∃ errors : List AttemptError, (List.range i).map (outcomeOf lib timezone replies c) =
      errors.map .error ∧
      (conversationBefore lib timezone replies c i).messages = c.messages ++
        errors.map correction := by
  induction i with
  | zero => exact ⟨[], rfl, (List.append_nil _).symm⟩
  | succ i ih =>
    obtain ⟨errors, hrange, hmessages⟩ := ih fun j hj => h j (Nat.lt_succ_of_lt hj)
    obtain ⟨f, hf⟩ := h i (Nat.lt_succ_self i)
    refine ⟨errors ++ [f], ?_, ?_⟩
    · rw [List.range_succ, List.map_append, hrange, List.map_singleton, hf, List.map_append,
        List.map_singleton]
    · rw [conversationBefore_succ, Retrying.next_of_error hf, List.map_append,
        ← List.append_assoc, ← hmessages]
      rfl

/-- An attempt fails with an error that is retried, if the replies are refused or not. -/
theorem isTriggerParseError_of_outcome
    (hreplies : ∀ n text, replies.completion n = .returns (some text) → text ≠ "" →
      ParsedOrRefused (parseTriggerJson lib timezone (replies.clock n) (strip lib.unicode text)))
    {f : AttemptError} (h : outcomeOf lib timezone replies c i = .error f) :
    f.exn.isTriggerParseError = true := by
  rw [outcomeOf_eq] at h
  rcases Raising.bind_eq_error.1 h with h | ⟨⟨k, raw⟩, hreply, h⟩
  · exact callLlmFrom_eq_error h
  · obtain ⟨text, hcall, hne, rfl⟩ := callLlmFrom_eq_ok hreply
    obtain ⟨e, he, rfl⟩ := Raising.mapError_eq_error.1 h
    rcases hreplies k text hcall hne with ⟨spec, hspec⟩ | ⟨e', he'⟩
    · exact absurd (he.symm.trans hspec) (by simp)
    · obtain rfl := Except.error.inj (he.symm.trans he')
      rfl

variable (lib timezone replies) in
theorem tried_formatsOf (c : Conversation) (i : ℕ) :
    Tried replies (conversationBefore lib timezone replies c i).calls
      (formatsOf lib timezone replies c i) := by
  obtain ⟨hnil, hinit, hraised, hlast⟩ :=
    callLlmFrom_tried lib replies (conversationBefore lib timezone replies c i).calls "None"
      responseFormats
  exact ⟨fun h => absurd (hnil h) (by simp [responseFormats]), hinit, hraised, hlast⟩

variable (lib timezone replies) in
theorem length_requestsOf (c : Conversation) (i : ℕ) :
    (requestsOf lib timezone replies c i).length ≤ 3 := by
  rw [requestsOf, List.length_map]
  exact (tried_formatsOf lib timezone replies c i).initial.length_le

/-! ## Without the messages -/

/-- Nothing if the call raises, or else the content of the response. -/
def Completion.content : Completion → Option (Option String)
  | raises _ => none
  | returns content => some content

variable (lib timezone replies) in
/-- What the calls of the `i`-th attempt come to. -/
def callOf (c : Conversation) (i : ℕ) : LlmCall :=
  let n := (conversationBefore lib timezone replies c i).calls
  ⟨(replies.completion n).content, (replies.completion (n + 1)).content,
    (replies.completion (n + 2)).content⟩

/-- The reply is the first content there is. -/
theorem callLlmFrom_eq (n : ℕ) (last : String) (formats : List (Option ResponseFormat)) :
    ((callLlmFrom lib replies n last formats).1.mapError AttemptError.exn).map Prod.snd =
      (((List.range formats.length).map fun t =>
        (replies.completion (n + t)).content).findSome? id).elim
        (.error (.triggerParseError .requestFailed)) (extractContent lib) := by
  induction formats generalizing n last with
  | nil => rfl
  | cons format formats ih =>
    have hshift : ∀ t, (replies.completion (n + Nat.succ t)).content =
        (replies.completion (n + 1 + t)).content := by
      intro t
      rw [Nat.succ_eq_add_one, Nat.add_comm t, Nat.add_assoc]
    rw [callLlmFrom, List.length_cons, List.range_succ_eq_map, List.map_cons, List.map_map,
      Nat.add_zero]
    rcases replies.completion n with text | content
    · dsimp only
      rw [ih (n + 1) text, Completion.content, List.findSome?_cons]
      simp only [Function.comp_def, hshift, id]
    · rw [Completion.content, List.findSome?_cons]
      dsimp only [id, Option.elim]
      cases extractContent lib content <;> rfl

theorem callLlm_eq (n : ℕ) (last : String) :
    ((callLlmFrom lib replies n last responseFormats).1.mapError AttemptError.exn).map Prod.snd =
      callLlm lib ⟨(replies.completion n).content, (replies.completion (n + 1)).content,
        (replies.completion (n + 2)).content⟩ := by
  have hthree : ((List.range responseFormats.length).map fun t =>
    (replies.completion (n + t)).content) =
      [(replies.completion n).content, (replies.completion (n + 1)).content,
        (replies.completion (n + 2)).content] := rfl
  rw [callLlmFrom_eq, hthree, callLlm]
  split
  · rename_i hnone
    rw [hnone]
    rfl
  · rename_i content hcontent
    rw [hcontent]
    rfl

/-- An attempt comes to what its calls come to, whatever has been said. -/
theorem mapError_outcomeOf (hclock : ∀ n, replies.clock n = now) :
    (outcomeOf lib timezone replies c i).mapError AttemptError.exn =
      parseOnce lib timezone now (callOf lib timezone replies c i) := by
  rw [outcomeOf_eq, parseOnce, callOf, ← callLlm_eq _ "None"]
  rcases (callLlmFrom lib replies (conversationBefore lib timezone replies c i).calls "None"
    responseFormats).1 with
    f | ⟨n, raw⟩
  · rfl
  · simp only [Except.bind, Except.mapError, Except.map, hclock]
    cases parseTriggerJson lib timezone now raw <;> rfl

/-- At one time, the parser comes to what the replies come to, attempt by attempt, that the model
    gives in the course of the conversation. -/
theorem parseTriggerTextToSpec_eq_converse (hclock : ∀ n, replies.clock n = now) :
    (converseTriggerTextToSpec lib timezone replies now settings prompt text).1 =
      parseTriggerTextToSpec lib timezone now settings
        (callOf lib timezone replies (opening prompt text)) text := by
  have hconverse :
    (converse lib timezone replies settings.maxRetries.toNat (opening prompt text)).1.mapError
      AttemptError.exn = parseReplies lib timezone now settings
        (callOf lib timezone replies (opening prompt text)) :=
    Retrying.mapError_run _ 0 _ (fun _ => rfl) fun j => by
      rw [Nat.zero_add]
      exact mapError_outcomeOf hclock
  rw [converseTriggerTextToSpec, parseTriggerTextToSpec]
  split
  · rcases relativeRunAt lib timezone now text with e | _ | runAt
    · rfl
    · simp only [Except.mapError, Except.bind]
      rcases renderTriggerParsePrompt settings (nowIn lib timezone now) with e | _
      · rfl
      · exact hconverse
    · simp only [Except.mapError, Except.bind]
      rcases computeNextRunAt lib.crontab now (onceAt (lib.zoneInfo timezone) runAt) with e | next
      · rfl
      · rfl
  · rfl

/-! ## Conversations -/

/-- The attempts end with the first one that has a specification, or with the last one there may
    be. Each is sent the first messages, and the errors of those before it, and asks for the
    formats in turn. -/
theorem converse_spec (n : ℕ) (hstart : c.attempts = [])
    (hreplies : ∀ n text, replies.completion n = .returns (some text) → text ≠ "" →
      ParsedOrRefused (parseTriggerJson lib timezone (replies.clock n) (strip lib.unicode text))) :
    ∃ k, IsLeast {i | (∃ spec, outcomeOf lib timezone replies c i = .ok spec) ∨ i = n} k ∧
      (converse lib timezone replies n c).1 = outcomeOf lib timezone replies c k ∧
      (converse lib timezone replies n c).2.attempts =
        (List.range (k + 1)).map (requestsOf lib timezone replies c) ∧
      ∀ i ≤ k, ∃ errors : List AttemptError,
        (List.range i).map (outcomeOf lib timezone replies c) = errors.map .error ∧
        (conversationBefore lib timezone replies c i).messages = c.messages ++
          errors.map correction := by
  obtain ⟨k, hk, hrun, hbefore, hlast⟩ := Retrying.exists_run_eq
    (fun f : AttemptError => f.exn.isTriggerParseError) beforeSleep
      (sendOnce lib timezone replies) n c
  have hfailed : ∀ j < k, ∃ f, outcomeOf lib timezone replies c j = .error f := by
    intro j hj
    obtain ⟨f, hf, -⟩ := hbefore j hj
    exact ⟨f, hf⟩
  refine ⟨k, ⟨?_, ?_⟩, congrArg Prod.fst hrun, ?_, fun i hi => ?_⟩
  · rcases hlast with rfl | hlast
    · exact .inr rfl
    · rcases houtcome : outcomeOf lib timezone replies c k with f | spec
      · exact absurd ⟨f, houtcome, isTriggerParseError_of_outcome hreplies houtcome⟩ hlast
      · exact .inl ⟨spec, houtcome⟩
  · rintro i (⟨spec, hspec⟩ | rfl)
    · by_contra hlt
      obtain ⟨f, hf⟩ := hfailed i (Nat.lt_of_not_le hlt)
      exact absurd (hf.symm.trans hspec) (by simp)
    · exact hk
  · rw [converse, hrun]
    refine attempts_sendOnce.trans ?_
    rw [attempts_conversationBefore hstart, List.range_succ, List.map_append, List.map_singleton]
  · exact messages_conversationBefore fun j hj => hfailed j (Nat.lt_of_lt_of_le hj hi)

/-- The calls of some attempts are at most three for each. -/
theorem length_flatten_requests (k : ℕ) :
    ((List.range k).map (requestsOf lib timezone replies c)).flatten.length ≤ 3 * k := by
  induction k with
  | zero => exact Nat.le_refl 0
  | succ k ih =>
    have hlast := length_requestsOf lib timezone replies c k
    rw [List.range_succ, List.map_append, List.flatten_append, List.length_append,
      List.map_singleton, List.flatten_singleton]
    omega

theorem take_range_map {β : Type} (f : ℕ → β) (hi : i ≤ n) :
    ((List.range n).map f).take i = (List.range i).map f := by
  rw [← List.map_take, List.take_range, Nat.min_eq_left hi]

/-- Where the relative parser has no answer and the prompt renders, the model is asked. -/
theorem converseTriggerTextToSpec_of_declined (hzone : lib.crontab.zones timezone = true)
    (hrelative : relativeRunAt lib timezone now text = .ok none)
    (hprompt : renderTriggerParsePrompt settings (nowIn lib timezone now) = .ok ()) :
    converseTriggerTextToSpec lib timezone replies now settings prompt text =
      ((converse lib timezone replies settings.maxRetries.toNat (opening prompt text)).1.mapError
        AttemptError.exn,
        (converse lib timezone replies settings.maxRetries.toNat
          (opening prompt text)).2.attempts) := by
  rw [converseTriggerTextToSpec, if_pos hzone, hrelative]
  dsimp only
  rw [hprompt]

variable (prompt) in
/-- Where the relative parser has no answer and the prompt renders: the attempts are as many as
    the first one that has a specification, or one more than there are retries; each of them is
    sent the two messages and a correction for each error so far, in the formats up to the first
    call that does not raise; and the result is that of the last one. -/
theorem retries_of_replies (hzone : lib.crontab.zones timezone = true)
    (hrelative : relativeRunAt lib timezone now text = .ok none)
    (hprompt : renderTriggerParsePrompt settings (nowIn lib timezone now) = .ok ())
    (hreplies : ∀ n text, replies.completion n = .returns (some text) → text ≠ "" →
      ParsedOrRefused (parseTriggerJson lib timezone (replies.clock n) (strip lib.unicode text))) :
    ∃ result log k,
      converseTriggerTextToSpec lib timezone replies now settings prompt text = (result, log) ∧
      IsLeast {i | (∃ spec, outcomeOf lib timezone replies (opening prompt text) i = .ok spec) ∨
        i = settings.maxRetries.toNat} k ∧
      log.length = k + 1 ∧
      result = (outcomeOf lib timezone replies (opening prompt text) k).mapError AttemptError.exn ∧
      (∀ i ≤ k, ∃ (errors : List AttemptError) (formats : List (Option ResponseFormat)),
        (List.range i).map (outcomeOf lib timezone replies (opening prompt text)) =
          errors.map .error ∧
        Tried replies (log.take i).flatten.length formats ∧
        log[i]? = some (formats.map
          (CompletionCall.mk ([⟨.system, prompt⟩, ⟨.user, text⟩] ++ errors.map correction)))) ∧
      log.flatten.length ≤ 3 * (settings.maxRetries.toNat + 1) := by
  obtain ⟨k, hleast, hresult, hlog, hmessages⟩ :=
    converse_spec (c := opening prompt text) settings.maxRetries.toNat rfl hreplies
  have hk : k ≤ settings.maxRetries.toNat := hleast.2 (.inr rfl)
  refine ⟨_, _, k, converseTriggerTextToSpec_of_declined hzone hrelative hprompt, hleast, ?_⟩
  rw [hresult, hlog]
  refine ⟨by simp, rfl, fun i hi => ?_, (length_flatten_requests (k + 1)).trans (by omega)⟩
  obtain ⟨errors, herrors, hsent⟩ := hmessages i hi
  refine ⟨errors, formatsOf lib timezone replies (opening prompt text) i, herrors, ?_, ?_⟩
  · rw [take_range_map _ (by omega), ← attempts_conversationBefore rfl]
    exact tried_formatsOf lib timezone replies _ i
  · rw [List.getElem?_map, List.getElem?_range (by omega), Option.map_some, requestsOf, hsent]
    rfl

/-- A reply that is no JSON, and no replies from then on. -/
def Replies.once : Replies where
  completion n := if n = 0 then .returns (some "In five minutes.") else .raises "timeout"
  clock _ := 1780214400000000
  describe _ _ := "Invalid JSON"

/-- With two retries, three attempts are made, and one is made after two have failed. -/
theorem retries_once : (converseTriggerTextToSpec .sample "UTC" .once 1780214400000000 .sample
    "You parse triggers." "every 5 minutes").2.length = 3 := by
  have hrelative : relativeRunAt .sample "UTC" 1780214400000000 "every 5 minutes" =
      .ok none := by decide +kernel
  have hprompt :
      renderTriggerParsePrompt .sample (nowIn .sample "UTC" 1780214400000000) = .ok () := by
    decide +kernel
  have houtcomes : ∀ i < 2, (outcomeOf .sample "UTC" .once
    (opening "You parse triggers." "every 5 minutes") i).isOk =
      false := by decide +kernel
  have hjson : parseTriggerJson .sample "UTC" 1780214400000000 (strip .ascii "In five minutes.") =
      .error (.triggerParseError .invalidJson) := by decide +kernel
  have hreplies : ∀ n text, Replies.once.completion n = .returns (some text) → text ≠ "" →
      ParsedOrRefused (parseTriggerJson .sample "UTC" (Replies.once.clock n)
        (strip Unicode.ascii text)) := by
    intro n text hcall _
    rw [Replies.once] at hcall
    dsimp only at hcall
    split at hcall
    · obtain rfl := Option.some.inj (Completion.returns.inj hcall)
      exact .inr ⟨.invalidJson, hjson⟩
    · exact absurd hcall (by simp)
  obtain ⟨result, log, k, hrun, ⟨hk, hleast⟩, hlength, -⟩ :=
    retries_of_replies "You parse triggers." (by decide) hrelative hprompt hreplies
  have hle : k ≤ 2 := hleast (.inr rfl)
  rw [hrun]
  rcases hk with ⟨spec, hspec⟩ | rfl
  · rcases Nat.lt_or_eq_of_le hle with hlt | rfl
    · have hfailed := houtcomes k hlt
      rw [hspec] at hfailed
      exact absurd hfailed (by simp [Except.isOk, Except.toBool])
    · exact hlength
  · exact hlength

end SchedulerLm
