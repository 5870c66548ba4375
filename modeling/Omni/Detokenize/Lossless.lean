import Omni.Detokenize.Aborted

/-!
# The text deltas of a request

The tokenizer decodes the bytes of the tokens that are not special, with replacement. Windows of
tokens are decoded for themselves; all but the last one end between characters.
-/

namespace Omni.Detokenize

open Transition Utf8 Text State List Option

section Deltas

variable (bytes : ℕ → Option Bytes) {deltas : List Chars} {tokens : List ℕ}

/-- The bytes of tokens. Special tokens have none. -/
def tokenBytes (tokens : List ℕ) : Bytes := tokens.flatMap fun token => (bytes token).getD []

/-- The text of tokens. -/
def textOf (tokens : List ℕ) : Chars := lossy (tokenBytes bytes tokens)

/-- The texts of windows of tokens that are sent: those that are not empty. -/
def textsOf (windows : List (List ℕ)) : List Chars :=
  (windows.map (textOf bytes)).filter (· ≠ [])

/-- The deltas are the texts of consecutive windows of the tokens, without those that are empty, and
together they are the text of all tokens. -/
def Delivered (tokens : List ℕ) (deltas : List Chars) : Prop :=
  ∃ windows : List (List ℕ), windows.flatten = tokens ∧ deltas = textsOf bytes windows ∧
    deltas.flatten = textOf bytes tokens

/-- The deltas have delivered the tokens but for those that are pending, up to the end of a
character. -/
def Delivering (tokens pending : List ℕ) (deltas : List Chars) : Prop :=
  ∃ delivered, tokens = delivered ++ pending ∧ Complete (tokenBytes bytes delivered) ∧
    Delivered bytes delivered deltas

variable {bytes}

theorem tokenBytes_append (x y : List ℕ) :
    tokenBytes bytes (x ++ y) = tokenBytes bytes x ++ tokenBytes bytes y := flatMap_append

theorem delivering_nil : Delivering bytes [] [] [] :=
  ⟨[], rfl, complete_nil, [], rfl, rfl, rfl⟩

theorem Delivering.pending {pending : List ℕ} (h : Delivering bytes tokens pending deltas)
    (token : ℕ) :
    Delivering bytes (tokens ++ [token]) (pending ++ [token]) deltas := by
  obtain ⟨delivered, rfl, hcomplete, hdelivered⟩ := h
  exact ⟨delivered, append_assoc .., hcomplete, hdelivered⟩

theorem Delivering.window {pending : List ℕ} (h : Delivering bytes tokens pending deltas) :
    Delivered bytes tokens (deltas ++ textsOf bytes [pending]) := by
  obtain ⟨delivered, rfl, hcomplete, windows, rfl, rfl, htext⟩ := h
  refine ⟨windows ++ [pending], by simp, ?_, ?_⟩
  · rw [textsOf, textsOf, textsOf, map_append, filter_append]
  · have hpending : (textsOf bytes [pending]).flatten = textOf bytes pending := by
      by_cases hempty : textOf bytes pending = []
      · simp [textsOf, hempty]
      · simp [textsOf, hempty]
    rw [flatten_append, htext, hpending, textOf, textOf, textOf, tokenBytes_append,
      hcomplete.lossy_append]

/-- Pending tokens whose text does not end with U+FFFD are flushed. -/
theorem Delivering.flush {pending : List ℕ} (h : Delivering bytes tokens pending deltas)
    (hpending : (textOf bytes pending).getLast? ≠ some replacement) :
    Delivering bytes tokens [] (deltas ++ textsOf bytes [pending]) := by
  refine ⟨tokens, (append_nil _).symm, ?_, h.window⟩
  obtain ⟨delivered, rfl, hcomplete, -⟩ := h
  rw [tokenBytes_append]
  exact hcomplete.append (complete_of_getLast hpending)

/-- Nothing is pending at the end. -/
theorem Delivering.delivered (h : Delivering bytes tokens [] deltas) :
    Delivered bytes tokens deltas := by
  obtain ⟨delivered, rfl, -, hdelivered⟩ := h
  rw [append_nil]
  exact hdelivered

end Deltas

section Messages

variable {ι P R ε : Type} [DecidableEq ι]

/-- The tokens of the chunks. -/
def tokensOf (msgs : List (IncomingMessage P ε)) : List ℕ :=
  msgs.filterMap fun
    | .streamChunk (.ok token) => some token
    | _ => none

/-- The payload is among the messages. -/
def HasPayload (msgs : List (IncomingMessage P ε)) : Prop := ∃ payload, .newRequest payload ∈ msgs

/-- The end of the stream is among the messages. -/
def HasDone (msgs : List (IncomingMessage P ε)) : Prop := .streamDone ∈ msgs

/-- What may follow messages: a chunk with a token or the end of the stream before the end of the
stream, or the payload of a request that streams. -/
def Follows (isStreaming : P → Bool) (msgs : List (IncomingMessage P ε)) :
    IncomingMessage P ε → Prop
  | .newRequest payload => isStreaming payload = true ∧ ¬HasPayload msgs
  | .streamChunk item => (∃ token, item = .ok token) ∧ ¬HasDone msgs
  | .streamDone => ¬HasDone msgs

/-- Every message follows the ones before it. -/
def InOrder (isStreaming : P → Bool) (msgs : List (IncomingMessage P ε)) : Prop :=
  ∀ before msg after, msgs = before ++ msg :: after → Follows isStreaming before msg

/-- The messages of a request that the stage puts into the inbox. -/
def sent (r : ι) (as : List (Action ι P ε)) : List (IncomingMessage P ε) :=
  as.filterMap fun
    | .enqueue r' msg => if r' = r then some msg else none
    | _ => none

/-- The messages of a request that wait. -/
def waiting (r : ι) (inbox : List (ι × IncomingMessage P ε)) : List (IncomingMessage P ε) :=
  inbox.filterMap fun entry => if entry.1 = r then some entry.2 else none

/-- The text deltas that have been put out for a request. -/
def deltasOf (r : ι) (outbox : List (OutgoingMessage ι R ε)) : List Chars :=
  outbox.filterMap fun
    | .stream r' text => if r' = r then some text else none
    | _ => none

/-- The request is not aborted, and its state is not evicted as an orphan. -/
def Undisturbed (d : Detokenizer P R ε) (r : ι) (s : State ι P R ε) : Action ι P ε → Prop
  | .abort r' => r' ≠ r
  | .work nowMs => s.Spares d nowMs r
  | _ => True

/-- All messages of the request have been handled. -/
def Handled (r : ι) (s : State ι P R ε) : Prop :=
  waiting r s.inbox = [] ∧ s.work.request ≠ some r

theorem InOrder.init {isStreaming : P → Bool} {msgs more : List (IncomingMessage P ε)}
    (h : InOrder isStreaming (msgs ++ more)) : InOrder isStreaming msgs := by
  intro before msg after hmsgs
  exact h before msg (after ++ more) (by rw [hmsgs]; simp)

theorem inOrder_nil (isStreaming : P → Bool) :
    InOrder isStreaming ([] : List (IncomingMessage P ε)) := by
  intro before msg after hmsgs
  simp at hmsgs

theorem InOrder.snoc {isStreaming : P → Bool} {msgs : List (IncomingMessage P ε)}
    {msg : IncomingMessage P ε} (h : InOrder isStreaming msgs)
    (hfollows : Follows isStreaming msgs msg) : InOrder isStreaming (msgs ++ [msg]) := by
  intro before msg' after hmsgs
  rcases eq_nil_or_concat after with rfl | ⟨after', last, rfl⟩
  · obtain ⟨rfl, hlast⟩ := append_inj' hmsgs rfl
    obtain rfl := singleton_inj.1 hlast
    exact hfollows
  · have hmsgs' : msgs ++ [msg] = (before ++ msg' :: after') ++ [last] := by simpa using hmsgs
    exact h before msg' after' (append_inj' hmsgs' rfl).1

theorem tokensOf_append (msgs more : List (IncomingMessage P ε)) :
    tokensOf (msgs ++ more) = tokensOf msgs ++ tokensOf more := filterMap_append ..

theorem deltasOf_append (r : ι) (out more : List (OutgoingMessage ι R ε)) :
    deltasOf r (out ++ more) = deltasOf r out ++ deltasOf r more := filterMap_append ..

theorem sent_append (r : ι) (as bs : List (Action ι P ε)) :
    sent r (as ++ bs) = sent r as ++ sent r bs := filterMap_append ..

theorem hasPayload_append (msgs more : List (IncomingMessage P ε)) :
    HasPayload (msgs ++ more) ↔ HasPayload msgs ∨ HasPayload more := by
  simp only [HasPayload, mem_append, exists_or]

theorem hasDone_append (msgs more : List (IncomingMessage P ε)) :
    HasDone (msgs ++ more) ↔ HasDone msgs ∨ HasDone more := mem_append

end Messages

section Invariant

variable {ι P R ε : Type} [DecidableEq ι] (bytes : ℕ → Option Bytes)

/-- What the scheduler has of a request: its state, its entry in `_done_seen` and its deltas. -/
structure Share (P : Type) where
  state : Option (RequestState P)
  seen : Option Unit
  deltas : List Chars

/-- What the scheduler has of a request. -/
def State.share (s : State ι P R ε) (r : ι) : Share P :=
  ⟨s.states.get r, s.doneSeen.get r, deltasOf r s.outbox⟩

/-- Payload and end of the stream have come. -/
def Both (msgs : List (IncomingMessage P ε)) : Prop := HasPayload msgs ∧ HasDone msgs

/-- A request of which messages are missing: its pending tokens and what is noted of the
messages. -/
structure Open (msgs : List (IncomingMessage P ε)) (share : Share P) : Prop where
  missing : ¬Both msgs
  delivering : Delivering bytes (tokensOf msgs)
    ((share.state.map (·.pendingTokens)).getD []) share.deltas
  absent : share.state = none → ¬HasPayload msgs ∧ tokensOf msgs = []
  payload : ∀ state, share.state = some state → (state.payload ≠ none ↔ HasPayload msgs)
  done : ∀ state, share.state = some state → (state.done = true ↔ HasDone msgs)
  seen : share.seen ≠ none → HasDone msgs

/-- A request between two of its messages. -/
def Between (msgs : List (IncomingMessage P ε)) (share : Share P) : Prop :=
  Open bytes msgs share ∨ Both msgs ∧ Delivered bytes (tokensOf msgs) share.deltas

/-- The payload or the end of the stream is handled, and the other one has come. -/
structure Closing (msgs : List (IncomingMessage P ε)) (pending : List ℕ) (deltas : List Chars) :
    Prop where
  both : Both msgs
  delivering : Delivering bytes (tokensOf msgs) pending deltas

/-- The state is new. -/
structure Fresh (msgs : List (IncomingMessage P ε)) (share : Share P) : Prop where
  stored : ∃ lastSeen, share.state = some { lastSeen := lastSeen }
  payload : ¬HasPayload msgs
  tokens : tokensOf msgs = []
  delivering : Delivering bytes [] [] share.deltas
  seen : share.seen ≠ none → HasDone msgs

/-- The state that `_on_new_request` works with. -/
structure Arriving (msgs : List (IncomingMessage P ε)) (share : Share P) (state : RequestState P) :
    Prop where
  stored : share.state = some state
  payload : ¬HasPayload msgs
  delivering : Delivering bytes (tokensOf msgs) state.pendingTokens share.deltas
  ofDone : state.done = true → HasDone msgs
  done : HasDone msgs → state.done = true ∨ state.pendingTokens = []
  seen : share.seen ≠ none → HasDone msgs

/-- The state that `_finalize` takes out, with a payload. -/
def Finalizing (msgs : List (IncomingMessage P ε)) (deltas : List Chars)
    (state : Option (RequestState P)) : Prop :=
  ∃ state', state = some state' ∧ state'.payload ≠ none ∧
    Closing bytes msgs state'.pendingTokens deltas

/-- A request while a message of it is handled, after the messages before. -/
def During (msgs : List (IncomingMessage P ε)) (msg : IncomingMessage P ε) (share : Share P) :
    Work ι P ε → Prop
  | .start _ msg' => msg' = msg ∧ Between bytes msgs share
  | .inserted _ (.chunk token) => msg = .streamChunk (.ok token) ∧ Fresh bytes msgs share
  | .inserted _ (.payload payload) => msg = .newRequest payload ∧ Fresh bytes msgs share
  | .decode _ token state => msg = .streamChunk (.ok token) ∧ share.state = some state ∧
      Open bytes msgs share
  | .delta _ text =>
    Open bytes (msgs ++ [msg]) { share with deltas := share.deltas ++ [text] }
  | .arrived _ payload state => msg = .newRequest payload ∧ Arriving bytes msgs share state
  | .unlatch _ => Finalizing bytes (msgs ++ [msg]) share.deltas share.state
  | .finalize _ => Finalizing bytes (msgs ++ [msg]) share.deltas share.state
  | .finalized _ state => Finalizing bytes (msgs ++ [msg]) share.deltas state
  | .flush _ _ pending => Closing bytes (msgs ++ [msg]) pending share.deltas
  | .latched _ => Between bytes (msgs ++ [msg]) share
  | .evictDone _ _ => Between bytes (msgs ++ [msg]) share
  | _ => Both (msgs ++ [msg]) ∧ Delivered bytes (tokensOf (msgs ++ [msg])) share.deltas

/-- A request after a step of the handler of a message. -/
def After (msgs : List (IncomingMessage P ε)) (msg : IncomingMessage P ε) (r : ι)
    (s : State ι P R ε) : Prop :=
  s.work.request = some r ∧ During bytes msgs msg (s.share r) s.work ∨
    s.work.request = none ∧ Between bytes (msgs ++ [msg]) (s.share r)

variable {bytes}

/-- What the tokenizer and the test for incomplete texts have to do. -/
structure Decodes (bytes : ℕ → Option Bytes) (d : Detokenizer P R ε) : Prop where
  decode : ∀ tokens, d.decode tokens = .ok (textOf bytes tokens)
  ends : ∀ text, d.incomplete text = false → text.getLast? ≠ some replacement

/-- A request that is not closed has not got both messages. -/
theorem Between.open {msgs : List (IncomingMessage P ε)} {share : Share P}
    (h : Between bytes msgs share) (hmissing : ¬Both msgs) : Open bytes msgs share :=
  h.resolve_right fun hclosed => hmissing hclosed.1

/-- An entry of `_done_seen` less. -/
theorem Between.unseen {msgs : List (IncomingMessage P ε)} {share : Share P}
    (h : Between bytes msgs share) {seen : Option Unit} (hseen : seen ≠ none → share.seen ≠ none) :
    Between bytes msgs { share with seen := seen } := by
  rcases h with h | h
  · exact .inl { h with seen := fun hnot => h.seen (hseen hnot) }
  · exact .inr h

variable {state : RequestState P}

theorem share_update {r : ι} {s : State ι P R ε} (hget : s.states.get r = some state)
    (state' : RequestState P) (work : Work ι P ε) :
    ({ s.update r state' with work := work } : State ι P R ε).share r =
      { s.share r with state := some state' } := by
  have hset : (s.update r state').states.get r = some state' := by
    rw [update, hget]
    exact Dict.get_set_self ..
  rw [share]
  dsimp only
  rw [hset]
  rfl

theorem hasPayload_chunk (msgs : List (IncomingMessage P ε)) (item : Except ε ℕ) :
    HasPayload (msgs ++ [.streamChunk item]) ↔ HasPayload msgs := by
  rw [hasPayload_append]
  simp [HasPayload]

theorem hasDone_chunk (msgs : List (IncomingMessage P ε)) (item : Except ε ℕ) :
    HasDone (msgs ++ [.streamChunk item]) ↔ HasDone msgs := by
  rw [hasDone_append]
  simp [HasDone]

theorem hasPayload_payload (msgs : List (IncomingMessage P ε)) (payload : P) :
    HasPayload (msgs ++ [.newRequest payload]) :=
  ⟨payload, by simp⟩

theorem hasDone_payload (msgs : List (IncomingMessage P ε)) (payload : P) :
    HasDone (msgs ++ [.newRequest payload]) ↔ HasDone msgs := by
  rw [hasDone_append]
  simp [HasDone]

theorem hasPayload_done (msgs : List (IncomingMessage P ε)) :
    HasPayload (msgs ++ [.streamDone]) ↔ HasPayload msgs := by
  rw [hasPayload_append]
  simp [HasPayload]

theorem hasDone_done (msgs : List (IncomingMessage P ε)) : HasDone (msgs ++ [.streamDone]) := by
  simp [HasDone]

theorem Open.fresh {msgs : List (IncomingMessage P ε)} {share : Share P}
    (h : Open bytes msgs share) (hstate : share.state = none) (lastSeen : ℤ) :
    Fresh bytes msgs { share with state := some { lastSeen := lastSeen } } := by
  obtain ⟨hpayload, htokens⟩ := h.absent hstate
  have hdelivering := h.delivering
  rw [hstate, htokens] at hdelivering
  exact ⟨⟨lastSeen, rfl⟩, hpayload, htokens, hdelivering, h.seen⟩

theorem Open.pending {msgs : List (IncomingMessage P ε)} {share : Share P}
    (h : Open bytes msgs share) (hstate : share.state = some state) :
    Delivering bytes (tokensOf msgs) state.pendingTokens share.deltas := by
  have hdelivering := h.delivering
  rw [hstate] at hdelivering
  exact hdelivering

theorem Open.of_state {msgs : List (IncomingMessage P ε)} {share : Share P}
    (hstate : share.state = some state) (hmissing : ¬Both msgs)
    (hdelivering : Delivering bytes (tokensOf msgs) state.pendingTokens share.deltas)
    (hpayload : state.payload ≠ none ↔ HasPayload msgs) (hdone : state.done = true ↔ HasDone msgs)
    (hseen : share.seen ≠ none → HasDone msgs) : Open bytes msgs share where
  missing := hmissing
  delivering := by
    rw [hstate]
    exact hdelivering
  absent hnone := by
    rw [hstate] at hnone
    cases hnone
  payload state' hstate' := by
    obtain rfl := some.inj (hstate.symm.trans hstate')
    exact hpayload
  done state' hstate' := by
    obtain rfl := some.inj (hstate.symm.trans hstate')
    exact hdone
  seen := hseen

section Step

variable {r : ι} {d : Detokenizer P R ε} {s : State ι P R ε} {nowMs : ℤ}
  {msgs : List (IncomingMessage P ε)} {msg : IncomingMessage P ε}

theorem share_set (state : RequestState P) (work : Work ι P ε) :
    ({ s with states := s.states.set r state, work := work } : State ι P R ε).share r =
      { s.share r with state := some state } := by
  rw [share, Dict.get_set_self]
  rfl

/-- The handling of a message begins. -/
theorem after_begin (hfollows : Follows d.isStreaming msgs msg)
    (hbetween : Between bytes msgs (s.share r)) :
    After bytes msgs msg r (s.begin r nowMs msg) := by
  rcases msg with payload | item | -
  · have hopen := hbetween.open fun hboth => hfollows.2 hboth.1
    rw [State.begin, State.ensureState]
    cases hget : s.states.get r with
    | none =>
      refine .inl ⟨rfl, rfl, ?_⟩
      rw [share_set]
      exact hopen.fresh hget nowMs
    | some state =>
      have hpending := hopen.pending hget
      have hdone := hopen.done state hget
      refine .inl ⟨rfl, rfl, ?_⟩
      dsimp only [use]
      rw [share_update hget]
      exact ⟨rfl, hfollows.2, hpending, hdone.1, fun h => .inl (hdone.2 h), hopen.seen⟩
  · obtain ⟨⟨token, rfl⟩, hdone⟩ := hfollows
    have hopen := hbetween.open fun hboth => hdone hboth.2
    rw [State.begin, State.ensureState]
    cases hget : s.states.get r with
    | none =>
      refine .inl ⟨rfl, rfl, ?_⟩
      rw [share_set]
      exact hopen.fresh hget nowMs
    | some state =>
      have hpending := hopen.pending hget
      refine .inl ⟨rfl, rfl, ?_⟩
      dsimp only [use]
      rw [share_update hget]
      exact ⟨rfl, .of_state rfl hopen.missing hpending (hopen.payload state hget)
        (hopen.done state hget) hopen.seen⟩
  · have hopen := hbetween.open fun hboth => hfollows hboth.2
    have htokens : tokensOf (msgs ++ [.streamDone]) = tokensOf msgs := by
      rw [tokensOf_append]
      exact append_nil _
    rw [State.begin, State.onStreamDone]
    cases hget : s.states.get r with
    | none =>
      obtain ⟨hpayload, hempty⟩ := hopen.absent hget
      refine .inl ⟨rfl, .inl ⟨fun hboth => hpayload ((hasPayload_done msgs).1 hboth.1), ?_, ?_, ?_,
        ?_, fun _ => hasDone_done msgs⟩⟩
      · rw [htokens]
        exact hopen.delivering
      · intro _
        rw [hasPayload_done, htokens]
        exact ⟨hpayload, hempty⟩
      · intro state hstate
        cases hget.symm.trans hstate
      · intro state hstate
        cases hget.symm.trans hstate
    | some state =>
      have hpending := hopen.pending hget
      have hpayload := hopen.payload state hget
      dsimp only
      by_cases hsome : state.payload.isSome
      · rw [if_pos hsome]
        have hne : state.payload ≠ none := isSome_iff_ne_none.1 hsome
        refine .inl ⟨rfl, ?_⟩
        rw [share_update hget]
        refine ⟨_, rfl, hne, ⟨(hasPayload_done msgs).2 (hpayload.1 hne), hasDone_done msgs⟩, ?_⟩
        rw [htokens]
        exact hpending
      · rw [if_neg hsome]
        have hnot : ¬HasPayload msgs := fun h => hsome (isSome_iff_ne_none.2 (hpayload.2 h))
        refine .inr ⟨rfl, .inl ?_⟩
        rw [share_update hget]
        refine .of_state rfl (fun hboth => hnot ((hasPayload_done msgs).1 hboth.1)) ?_ ?_ ?_
          fun _ => hasDone_done msgs
        · rw [htokens]
          exact hpending
        · rw [hasPayload_done]
          exact hpayload
        · exact iff_of_true rfl (hasDone_done msgs)

theorem after_decodePending (hd : Decodes bytes d) {token : ℕ}
    (hfollows : Follows d.isStreaming msgs (.streamChunk (.ok token)))
    (hget : s.states.get r = some state) (hopen : Open bytes msgs (s.share r)) :
    After bytes msgs (.streamChunk (.ok token)) r (s.decodePending d r token state) := by
  have hdone : ¬HasDone msgs := hfollows.2
  have hpayload := hopen.payload state hget
  have htokens : tokensOf (msgs ++ [.streamChunk (.ok token)] : List (IncomingMessage P ε)) =
      tokensOf msgs ++ [token] := tokensOf_append ..
  -- the request stays open, whatever is pending and sent
  have hstays (pending : List ℕ) (deltas : List Chars)
      (hdelivering : Delivering bytes (tokensOf msgs ++ [token]) pending deltas) :
      Open bytes (msgs ++ [.streamChunk (.ok token)])
        { s.share r with
          state := some { state with pendingTokens := pending }
          deltas := deltas } := by
    refine .of_state rfl (fun hboth => hdone ((hasDone_chunk msgs _).1 hboth.2)) ?_ ?_ ?_ ?_
    · rw [htokens]
      exact hdelivering
    · rw [hasPayload_chunk]
      exact hpayload
    · rw [hasDone_chunk]
      exact hopen.done state hget
    · rw [hasDone_chunk]
      exact hopen.seen
  have hpending := (hopen.pending hget).pending token
  rw [decodePending, hd.decode]
  dsimp only
  by_cases hincomplete : d.incomplete (textOf bytes (state.pendingTokens ++ [token]))
  · rw [if_pos hincomplete]
    refine .inr ⟨rfl, .inl ?_⟩
    rw [share_update hget]
    exact hstays _ _ hpending
  · rw [if_neg hincomplete]
    have hflush := hpending.flush (hd.ends _ (by simpa using hincomplete))
    by_cases hempty : textOf bytes (state.pendingTokens ++ [token]) = []
    · rw [if_pos hempty]
      refine .inr ⟨rfl, .inl ?_⟩
      rw [share_update hget]
      refine hstays _ _ ?_
      simpa [textsOf, hempty] using hflush
    · rw [if_neg hempty]
      refine .inl ⟨rfl, ?_⟩
      rw [share_update hget]
      refine hstays _ _ ?_
      simpa [textsOf, hempty] using hflush

theorem after_arrive {payload : P} (hfollows : Follows d.isStreaming msgs (.newRequest payload))
    (harriving : Arriving bytes msgs (s.share r) state) :
    After bytes msgs (.newRequest payload) r (s.arrive d r payload state) := by
  have hget : s.states.get r = some state := harriving.stored
  have hstreaming : d.isStreaming payload = true := hfollows.1
  have htokens : tokensOf (msgs ++ [.newRequest payload]) = tokensOf msgs := by
    rw [tokensOf_append]
    exact append_nil _
  have hdelivering := harriving.delivering
  rw [← htokens] at hdelivering
  have hboth (hdone : HasDone msgs) : Both (msgs ++ [.newRequest payload]) :=
    ⟨hasPayload_payload msgs payload, (hasDone_payload msgs payload).2 hdone⟩
  unfold arrive
  cases hseen : s.doneSeen.get r with
  | some seen =>
    have hdone := harriving.seen (by simp [share, hseen])
    refine .inl ⟨rfl, ?_⟩
    rw [share_update hget]
    exact ⟨_, rfl, by simp, hboth hdone, hdelivering⟩
  | none =>
    dsimp only
    by_cases hdone : state.done = true
    · rw [if_pos (by simp [hdone])]
      refine .inl ⟨rfl, ?_⟩
      rw [share_update hget]
      exact ⟨_, rfl, by simp, hboth (harriving.ofDone hdone), hdelivering⟩
    · rw [if_neg (by simp [hdone, hstreaming])]
      refine .inr ⟨rfl, ?_⟩
      rw [share_update hget]
      by_cases hhas : HasDone msgs
      · rw [(harriving.done hhas).resolve_left hdone] at hdelivering
        exact .inr ⟨hboth hhas, hdelivering.delivered⟩
      · refine .inl (.of_state rfl (fun h => hhas ((hasDone_payload ..).1 h.2)) hdelivering ?_ ?_
          ?_)
        · exact iff_of_true (by simp) (hasPayload_payload msgs payload)
        · rw [hasDone_payload]
          exact iff_of_false hdone hhas
        · rw [hasDone_payload]
          exact harriving.seen

variable (out : List (OutgoingMessage ι R ε))

theorem deltasOf_put_result (data : R) :
    deltasOf r (out ++ [.result r data]) = deltasOf r out := by
  rw [deltasOf_append]
  exact append_nil _

theorem deltasOf_put_error (exc : ε) :
    deltasOf r (out ++ [.error r exc]) = deltasOf r out := by
  rw [deltasOf_append]
  exact append_nil _

theorem deltasOf_put_stream (text : Chars) :
    deltasOf r (out ++ [.stream r text]) = deltasOf r out ++ [text] := by
  rw [deltasOf_append]
  simp [deltasOf]

variable {s' : State ι P R ε}

/-- **Steps of the handler of a message.** -/
theorem after_handle (hd : Decodes bytes d) (hfollows : Follows d.isStreaming msgs msg)
    {work : Work ι P ε} (hwork : work.request = some r)
    (hduring : During bytes msgs msg (s.share r) work) (hspares : s.Spares d nowMs r)
    (h : s.handle d nowMs work = some s') : After bytes msgs msg r s' := by
  cases work <;> simp only [Work.request, Option.some.injEq, reduceCtorEq] at hwork <;> subst hwork
  case start r msg' =>
    obtain ⟨rfl, hbetween⟩ := hduring
    obtain rfl := some.inj h
    exact after_begin hfollows hbetween
  case inserted r use =>
    obtain ⟨t, ht, rfl⟩ := map_eq_some_iff.1 h
    obtain ⟨states, -, hkept, rfl⟩ := checkOrphans_spec ht
    have hshare : ({ s with states := states } : State ι P R ε).share r = s.share r := by
      rw [share]
      dsimp only
      rw [hkept r hspares]
      rfl
    cases use with
    | chunk token =>
      obtain ⟨rfl, ⟨lastSeen, hstored⟩, hpayload, htokens, hdelivering, hseen⟩ := hduring
      rw [← hshare] at hstored hdelivering hseen
      refine .inl ⟨rfl, ?_⟩
      dsimp only [use]
      rw [share_update hstored]
      refine ⟨rfl, rfl, .of_state rfl (fun hboth => hpayload hboth.1) ?_ ?_ ?_ hseen⟩
      · rw [htokens]
        exact hdelivering
      · exact iff_of_false (by simp) hpayload
      · exact iff_of_false (by simp) hfollows.2
    | payload payload =>
      obtain ⟨rfl, ⟨lastSeen, hstored⟩, hpayload, htokens, hdelivering, hseen⟩ := hduring
      rw [← hshare] at hstored hdelivering hseen
      refine .inl ⟨rfl, ?_⟩
      dsimp only [use]
      rw [share_update hstored]
      refine ⟨rfl, rfl, hpayload, ?_, by simp, fun _ => .inr rfl, hseen⟩
      rw [htokens]
      exact hdelivering
  case decode r token state =>
    obtain ⟨rfl, hget, hopen⟩ := hduring
    obtain rfl := some.inj h
    exact after_decodePending hd hfollows hget hopen
  case delta r text =>
    obtain rfl := some.inj h
    refine .inr ⟨rfl, .inl ?_⟩
    rw [put, share, deltasOf_put_stream]
    exact hduring
  case arrived r payload state =>
    obtain ⟨rfl, harriving⟩ := hduring
    obtain rfl := some.inj h
    exact after_arrive hfollows harriving
  case unlatch r =>
    obtain rfl := some.inj h
    exact .inl ⟨rfl, hduring⟩
  case latched r =>
    rw [handle] at h
    split at h
    · obtain rfl := some.inj h
      exact .inl ⟨rfl, hduring⟩
    · obtain rfl := some.inj h
      exact .inr ⟨rfl, hduring⟩
  case evictDone r excess =>
    have hdrop (n : ℕ) : Between bytes (msgs ++ [msg])
        { s.share r with seen := Dict.get r (s.doneSeen.drop n) } := by
      have hbetween : Between bytes (msgs ++ [msg]) (s.share r) := hduring
      refine hbetween.unseen fun hseen hnone => hseen ?_
      exact Dict.get_eq_none_of_subset (drop_subset ..) hnone
    rw [handle, evictDoneSeen.eq_def] at h
    split at h
    · split at h
      · cases h
      · generalize s.doneSeen.length - doneSeenEvictTo = n at h
        obtain rfl := some.inj h
        exact .inr ⟨rfl, hdrop n⟩
    · cases excess with
      | zero =>
        obtain rfl := some.inj h
        exact .inr ⟨rfl, hduring⟩
      | succ excess =>
        obtain rfl := some.inj h
        exact .inl ⟨rfl, hdrop 1⟩
  case finalize r =>
    obtain rfl := some.inj h
    exact .inl ⟨rfl, hduring⟩
  case finalized r state =>
    obtain ⟨state', rfl, hpayload, hclosing⟩ := hduring
    obtain ⟨payload, hpayload⟩ := ne_none_iff_exists'.1 hpayload
    rw [handle, finalizeWith.eq_def] at h
    dsimp only at h
    rw [hpayload] at h
    obtain rfl := some.inj h
    exact .inl ⟨rfl, hclosing⟩
  case flush r payload pending =>
    obtain ⟨hboth, hdelivering⟩ := hduring
    rw [handle, hd.decode] at h
    split at h
    next hempty =>
      subst hempty
      obtain rfl := some.inj h
      exact .inl ⟨rfl, hboth, hdelivering.delivered⟩
    · have hwindow := hdelivering.window
      dsimp only at h
      split at h
      next hempty =>
        obtain rfl := some.inj h
        have htexts : textsOf bytes [pending] = [] := by simp [textsOf, hempty]
        rw [htexts, append_nil] at hwindow
        exact .inl ⟨rfl, hboth, hwindow⟩
      next hempty =>
        obtain rfl := some.inj h
        have htexts : textsOf bytes [pending] = [textOf bytes pending] := by
          simp [textsOf, hempty]
        rw [htexts] at hwindow
        refine .inl ⟨rfl, hboth, ?_⟩
        rw [put, share, deltasOf_put_stream]
        exact hwindow
  case build r payload =>
    rw [handle] at h
    split at h
    · obtain rfl := some.inj h
      exact .inl ⟨rfl, hduring⟩
    · obtain rfl := some.inj h
      refine .inr ⟨rfl, .inr ?_⟩
      rw [put, share, deltasOf_put_result]
      exact hduring
  case raised r exc =>
    obtain rfl := some.inj h
    exact .inl ⟨rfl, hduring⟩
  case unlatchRaised r exc =>
    obtain rfl := some.inj h
    exact .inl ⟨rfl, hduring⟩
  case report r exc =>
    obtain rfl := some.inj h
    refine .inr ⟨rfl, .inr ?_⟩
    rw [put, share, deltasOf_put_error]
    exact hduring

end Step

/-- The messages of a request, those that are handled and those that wait. -/
def Progressing (bytes : ℕ → Option Bytes) (r : ι) (as : List (Action ι P ε))
    (s : State ι P R ε) : Prop :=
  s.aborting ≠ some r ∧ ∃ msgs,
    (s.work.request ≠ some r ∧ sent r as = msgs ++ waiting r s.inbox ∧
      Between bytes msgs (s.share r)) ∨
    ∃ msg, s.work.request = some r ∧ sent r as = msgs ++ msg :: waiting r s.inbox ∧
      During bytes msgs msg (s.share r) s.work

variable {as : List (Action ι P ε)} {s' : State ι P R ε}

/-- Steps that leave the request and the handler as they are. -/
theorem Progressing.congr {r : ι} {as' : List (Action ι P ε)} {s : State ι P R ε}
    (h : Progressing bytes r as s) (haborting : s'.aborting ≠ some r)
    {more : List (IncomingMessage P ε)} (hsent : sent r as' = sent r as ++ more)
    (hwaiting : waiting r s'.inbox = waiting r s.inbox ++ more) (hwork : s'.work = s.work)
    (hshare : s'.share r = s.share r) : Progressing bytes r as' s' := by
  obtain ⟨-, msgs, ⟨hother, hmsgs, hbetween⟩ | ⟨msg, hown, hmsgs, hduring⟩⟩ := h
  · refine ⟨haborting, msgs, .inl ⟨by rwa [hwork], ?_, by rwa [hshare]⟩⟩
    rw [hsent, hmsgs, hwaiting, append_assoc]
  · refine ⟨haborting, msgs, .inr ⟨msg, by rwa [hwork], ?_, by rwa [hshare, hwork]⟩⟩
    rw [hsent, hmsgs, hwaiting, append_assoc]
    rfl

/-- The handler of a message of another request leaves the state and the deltas. -/
theorem Local.share {d : Detokenizer P R ε} {nowMs : ℤ} {r r' : ι} {s : State ι P R ε}
    (h : Local d nowMs r' s s') (hr : r ≠ r') (hspares : s.Spares d nowMs r) :
    s'.share r = { s.share r with seen := s'.doneSeen.get r } := by
  obtain ⟨kept, -, hkept, hstates⟩ := h.states
  obtain ⟨messages, hout, hmessages⟩ := h.outbox
  have hnone : deltasOf r messages = [] := by
    refine filterMap_eq_nil_iff.2 fun m hm => ?_
    have hid := hmessages m hm
    cases m with
    | stream r'' text =>
      obtain rfl : r'' = r' := hid
      exact if_neg (Ne.symm hr)
    | result r'' data => rfl
    | error r'' exc => rfl
  have hstate : s'.states.get r = s.states.get r := (hstates r hr).trans (hkept r hspares)
  rw [State.share, State.share, hstate, hout, deltasOf_append, hnone, append_nil]

/-- **Steps of the scheduler.** -/
theorem progressing_step {d : Detokenizer P R ε} (hd : Decodes bytes d) {r : ι} {a : Action ι P ε}
    {s : State ι P R ε} (horder : InOrder d.isStreaming (sent r (as ++ [a])))
    (hok : Undisturbed d r s a) (hbefore : Progressing bytes r as s)
    (hstep : step d s a = some s') :
    Progressing bytes r (as ++ [a]) s' := by
  have haborting := hbefore.1
  rw [sent_append] at horder
  cases a with
  | enqueue r' msg =>
    simp only [step] at hstep
    split at hstep
    · cases hstep
    · cases hstep
      refine hbefore.congr haborting (sent_append ..) ?_ rfl rfl
      rw [waiting, filterMap_append]
      rfl
  | take =>
    obtain ⟨-, msgs, ⟨-, hmsgs, hbetween⟩ | ⟨msg, hown, -, -⟩⟩ := hbefore
    · simp only [step] at hstep
      split at hstep
      next r' msg inbox hidle hinbox =>
        cases hstep
        have hsent : sent r (as ++ [.take]) = sent r as := by
          rw [sent_append]
          exact append_nil _
        rw [hinbox] at hmsgs
        by_cases hr : r' = r
        · refine ⟨haborting, msgs, .inr ⟨msg, congrArg some hr, ?_, rfl, hbetween⟩⟩
          rw [hsent, hmsgs, waiting, filterMap_cons, if_pos hr]
          rfl
        · refine ⟨haborting, msgs, .inl ⟨fun h => hr (some.inj h), ?_, hbetween⟩⟩
          rw [hsent, hmsgs, waiting, filterMap_cons, if_neg hr]
          rfl
      · cases hstep
    · simp only [step] at hstep
      split at hstep
      next hidle _ =>
        rw [hidle] at hown
        cases hown
      · cases hstep
  | work nowMs =>
    have hhandle : s.handle d nowMs s.work = some s' := hstep
    have hsent : sent r (as ++ [.work nowMs]) = sent r as := by
      rw [sent_append]
      exact append_nil _
    obtain ⟨-, msgs, ⟨hother, hmsgs, hbetween⟩ | ⟨msg, hown, hmsgs, hduring⟩⟩ := hbefore
    · cases hrequest : s.work.request with
      | none =>
        have hidle : s.work = .idle := by
          cases hw : s.work <;> simp [hw, Work.request] at hrequest ⊢
        rw [hidle] at hhandle
        cases hhandle
      | some r' =>
        have hr : r ≠ r' := fun h => hother (by rw [hrequest, h])
        have hlocal := local_handle hrequest hhandle
        rw [← hlocal.aborting] at haborting
        rw [← hlocal.inbox, ← hsent] at hmsgs
        refine ⟨haborting, msgs, .inl ⟨?_, hmsgs, ?_⟩⟩
        · rcases hlocal.work with hwork | hwork
          · simp [hwork]
          · simp [hwork, hr.symm]
        · rw [hlocal.share hr hok]
          exact hbetween.unseen fun hseen hnone => hseen (hlocal.doneSeen r hr hnone)
    · have hlocal := local_handle hown hhandle
      have hfollows : Follows d.isStreaming msgs msg :=
        horder msgs msg (waiting r s.inbox) (by rw [hmsgs]; exact append_nil _)
      have hafter := after_handle hd hfollows hown hduring hok hhandle
      rw [← hlocal.aborting] at haborting
      rw [← hlocal.inbox, ← hsent] at hmsgs
      rcases hafter with ⟨hwork, hduring⟩ | ⟨hwork, hbetween⟩
      · exact ⟨haborting, msgs, .inr ⟨msg, hwork, hmsgs, hduring⟩⟩
      · refine ⟨haborting, msgs ++ [msg], .inl ⟨by simp [hwork], ?_, hbetween⟩⟩
        rw [hmsgs, append_assoc]
        rfl
  | abort r' =>
    simp only [step] at hstep
    split at hstep
    · cases hstep
    · cases hstep
      have hr : r ≠ r' := Ne.symm hok
      refine hbefore.congr (fun h => hr (some.inj h).symm) (sent_append ..)
        (append_nil _).symm rfl ?_
      rw [share, share]
      dsimp only
      rw [Dict.get_pop_ne hr]
  | abortReturns =>
    simp only [step] at hstep
    split at hstep
    · cases hstep
    next r' hreturns =>
      cases hstep
      have hr : r ≠ r' := fun h => haborting (by rw [hreturns, h])
      refine hbefore.congr (by simp) (sent_append ..) (append_nil _).symm rfl ?_
      rw [share, share]
      dsimp only
      rw [Dict.get_pop_ne hr]

/-- **Runs of the scheduler.** -/
theorem progressing_run {d : Detokenizer P R ε} (hd : Decodes bytes d) {r : ι} {s : State ι P R ε}
    (hrun : Run (step d) (Undisturbed d r) .init as s)
    (horder : InOrder d.isStreaming (sent r as)) :
    Progressing bytes r as s := by
  generalize hinit : (init : State ι P R ε) = init at hrun
  induction hrun with
  | nil =>
    subst hinit
    refine ⟨by simp [init], [], .inl ⟨by simp [init, Work.request], rfl, .inl ?_⟩⟩
    refine ⟨?_, delivering_nil, ?_, ?_, ?_, ?_⟩
    · rintro ⟨⟨payload, hpayload⟩, -⟩
      cases hpayload
    · rintro -
      refine ⟨?_, rfl⟩
      rintro ⟨payload, hpayload⟩
      cases hpayload
    · intro state hstate
      cases hstate
    · intro state hstate
      cases hstate
    · intro hseen
      exact absurd rfl hseen
  | snoc _ hok hstep ih =>
    have hbefore := ih (by rw [sent_append] at horder; exact horder.init)
    exact progressing_step hd horder hok hbefore hstep

end Invariant

section Lossless

variable {ι P R ε : Type} [DecidableEq ι] (bytes : ℕ → Option Bytes) (isStreaming : P → Bool)
  (buildResult : P → Except ε R)

/-- `tokenizer.decode` with the bytes of the tokens. -/
def tokenizer (tokens : List ℕ) : Except ε Chars := .ok (textOf bytes tokens)

theorem decodes_qwen3Omni : Decodes bytes
    (qwen3Omni (tokenizer bytes) isStreaming buildResult) where
  decode _ := rfl
  ends text hcomplete hlast := by
    have hmem : replacement ∈ text := mem_of_getLast? hlast
    have hcontains : text.contains replacement = false := hcomplete
    simp [hmem] at hcontains

theorem decodes_mingOmni : Decodes bytes (mingOmni (tokenizer bytes) isStreaming buildResult) where
  decode _ := rfl
  ends text hcomplete hlast := by
    have hends : (text.getLast? == some replacement) = false := hcomplete
    simp [hlast] at hends

/-- The two streaming detokenizers. -/
def streamingDetokenizers : List (Detokenizer P R ε) :=
  [qwen3Omni (tokenizer bytes) isStreaming buildResult,
    mingOmni (tokenizer bytes) isStreaming buildResult]

/-- When the chunks of a request, its payload and the end of its stream have been handled, its
deltas are the texts of consecutive windows of its tokens, and together the text of all of them. -/
theorem deltas_delivered {d : Detokenizer P R ε}
    (hd : d ∈ streamingDetokenizers bytes isStreaming buildResult) {r : ι}
    {as : List (Action ι P ε)} {s : State ι P R ε}
    (hrun : Run (step d) (Undisturbed d r) .init as s) (horder : InOrder isStreaming (sent r as))
    (hboth : Both (sent r as)) (hhandled : Handled r s) :
    Delivered bytes (tokensOf (sent r as)) (deltasOf r s.outbox) := by
  obtain ⟨hdecodes, hstreams⟩ : Decodes bytes d ∧ d.isStreaming = isStreaming := by
    rcases mem_pair.1 hd with rfl | rfl
    · exact ⟨decodes_qwen3Omni .., rfl⟩
    · exact ⟨decodes_mingOmni .., rfl⟩
  obtain ⟨hwaiting, hwork⟩ := hhandled
  have hprogress := progressing_run hdecodes hrun (by rwa [hstreams])
  obtain ⟨-, msgs, ⟨-, hmsgs, hbetween⟩ | ⟨msg, hown, -, -⟩⟩ := hprogress
  · rw [hwaiting, append_nil] at hmsgs
    rw [hmsgs] at hboth ⊢
    exact (hbetween.resolve_left fun hopen => hopen.missing hboth).2
  · exact absurd hown hwork

end Lossless

/-- A special token, a letter, and the parts of a character. -/
def partBytes : ℕ → Option Bytes
  | 1 => some [0x61]
  | 2 => some [0xE2, 0x82]
  | 3 => some [0xAC]
  | _ => none

/-- The detokenizer of Qwen3-Omni with these tokens. -/
def partsQwen : Detokenizer Bool Unit String := qwen3Omni (tokenizer partBytes) id fun _ => .ok ()

/-- The Ming detokenizer with these tokens. -/
def partsMing : Detokenizer Bool Unit String := mingOmni (tokenizer partBytes) id fun _ => .ok ()

/-- A character comes in two chunks, and a special token after it. -/
theorem deltas_delivered_parts :
    ∃ s : State ℕ Bool Unit String, deltasOf 7 s.outbox = [['€']] ∧
      Delivered partBytes [2, 3, 0] (deltasOf 7 s.outbox) := by
  obtain ⟨s, hrun, hhandled, hdeltas⟩ : ∃ s : State ℕ Bool Unit String,
      Run (step partsQwen) (Undisturbed partsQwen 7) .init
        [.enqueue 7 (.streamChunk (.ok 2)), .enqueue 7 (.streamChunk (.ok 3)),
          .enqueue 7 (.newRequest true), .enqueue 7 (.streamChunk (.ok 0)), .enqueue 7 .streamDone,
          .take, .work 0, .work 0, .work 0, .take, .work 0, .work 0, .work 0, .take, .work 0,
          .work 0, .take, .work 0, .work 0, .take, .work 0, .work 0, .work 0, .work 0, .work 0]
        s ∧ Handled 7 s ∧ deltasOf 7 s.outbox = [['€']] := by
    have hwork (s : State ℕ Bool Unit String) : s.Spares partsQwen 0 7 := by
      rintro stateMax idleMs ⟨⟩
    refine ⟨_, .cons trivial rfl <| .cons trivial rfl <| .cons trivial rfl <|
      .cons trivial rfl <| .cons trivial rfl <| .cons trivial rfl <| .cons (hwork _) rfl <|
      .cons (hwork _) rfl <| .cons (hwork _) rfl <| .cons trivial rfl <| .cons (hwork _) rfl <|
      .cons (hwork _) rfl <| .cons (hwork _) rfl <| .cons trivial rfl <| .cons (hwork _) rfl <|
      .cons (hwork _) rfl <| .cons trivial rfl <| .cons (hwork _) rfl <| .cons (hwork _) rfl <|
      .cons trivial rfl <| .cons (hwork _) rfl <| .cons (hwork _) rfl <| .cons (hwork _) rfl <|
      .cons (hwork _) rfl <| .cons (hwork _) rfl <| .nil _, ⟨rfl, ?_⟩, rfl⟩
    simp [put, Work.request]
  have horder : InOrder id ([.streamChunk (.ok 2), .streamChunk (.ok 3), .newRequest true,
      .streamChunk (.ok 0), .streamDone] : List (IncomingMessage Bool String)) := by
    refine .snoc (.snoc (.snoc (.snoc (.snoc (inOrder_nil id) ?_) ?_) ?_) ?_) ?_ <;>
      simp [Follows, HasPayload, HasDone]
  have hboth : Both ([.streamChunk (.ok 2), .streamChunk (.ok 3), .newRequest true,
      .streamChunk (.ok 0), .streamDone] : List (IncomingMessage Bool String)) := by
    simp [Both, HasPayload, HasDone]
  exact ⟨s, hdeltas, deltas_delivered partBytes id _ (mem_cons_self ..) hrun horder hboth hhandled⟩

/-- A special token enters no delta. The end of a character is lost when its chunk comes after the
end of the stream, or after the payload of a request that does not stream. -/
theorem special_token_enters_no_delta :
    (∃ as, ∃ s : State ℕ Bool Unit String, Run (step partsQwen) anyAction .init as s ∧
      InOrder id (sent 7 as) ∧ Both (sent 7 as) ∧ Handled 7 s ∧ tokensOf (sent 7 as) = [0] ∧
      ¬∃ windows : List (List ℕ), windows.flatten = [0] ∧
        deltasOf 7 s.outbox = windows.map (textOf partBytes)) ∧
    (∃ as, ∃ s : State ℕ Bool Unit String, Run (step partsMing) anyAction .init as s ∧
      InOrder id (sent 7 as) ∧ Both (sent 7 as) ∧ Handled 7 s ∧ tokensOf (sent 7 as) = [0] ∧
      ¬∃ windows : List (List ℕ), windows.flatten = [0] ∧
        deltasOf 7 s.outbox = windows.map (textOf partBytes)) ∧
    ∀ msgs ∈ [[.newRequest true, .streamDone, .streamChunk (.ok 2)],
        [.newRequest false, .streamChunk (.ok 2), .streamDone]],
      ∃ as, ∃ s : State ℕ Bool Unit String, Run (step partsQwen) anyAction .init as s ∧
        sent 7 as = msgs ∧ Handled 7 s ∧
        (deltasOf 7 s.outbox).flatten ≠ textOf partBytes (tokensOf msgs) := by
  have horder : InOrder id ([.streamChunk (.ok 0), .newRequest true, .streamDone] :
      List (IncomingMessage Bool String)) := by
    refine .snoc (.snoc (.snoc (inOrder_nil id) ?_) ?_) ?_ <;>
      simp [Follows, HasPayload, HasDone]
  have hboth : Both ([.streamChunk (.ok 0), .newRequest true, .streamDone] :
      List (IncomingMessage Bool String)) := by
    simp [Both, HasPayload, HasDone]
  have hnone : ¬∃ windows : List (List ℕ), windows.flatten = [0] ∧
      [] = windows.map (textOf partBytes) := by
    rintro ⟨windows, hflatten, htexts⟩
    obtain rfl := map_eq_nil_iff.1 htexts.symm
    cases hflatten
  let special : List (Action ℕ Bool String) :=
    [.enqueue 7 (.streamChunk (.ok 0)), .enqueue 7 (.newRequest true), .enqueue 7 .streamDone,
      .take, .work 0, .work 0, .work 0, .take, .work 0, .work 0, .take, .work 0, .work 0, .work 0,
      .work 0, .work 0]
  let late : List (Action ℕ Bool String) :=
    [.enqueue 7 (.newRequest true), .enqueue 7 .streamDone, .enqueue 7 (.streamChunk (.ok 2)),
      .take, .work 0, .work 0, .work 0, .take, .work 0, .work 0, .work 0, .work 0, .work 0,
      .take, .work 0, .work 0, .work 0]
  let unread : List (Action ℕ Bool String) :=
    [.enqueue 7 (.newRequest false), .enqueue 7 (.streamChunk (.ok 2)), .enqueue 7 .streamDone,
      .take, .work 0, .work 0, .work 0, .work 0, .work 0, .work 0, .work 0,
      .take, .work 0, .work 0, .work 0, .take, .work 0]
  refine ⟨?_, ?_, ?_⟩
  · obtain ⟨s, hrun, hhandled, hdeltas⟩ : ∃ s, Run (step partsQwen) anyAction .init special s ∧
        Handled 7 s ∧ deltasOf 7 s.outbox = [] :=
      ⟨_, run_of_isSome _ _ _ (by decide +kernel), by unfold Handled; decide +kernel,
        by decide +kernel⟩
    exact ⟨special, s, hrun, horder, hboth, hhandled, rfl, by rwa [hdeltas]⟩
  · obtain ⟨s, hrun, hhandled, hdeltas⟩ : ∃ s, Run (step partsMing) anyAction .init special s ∧
        Handled 7 s ∧ deltasOf 7 s.outbox = [] :=
      ⟨_, run_of_isSome _ _ _ (by decide +kernel), by unfold Handled; decide +kernel,
        by decide +kernel⟩
    exact ⟨special, s, hrun, horder, hboth, hhandled, rfl, by rwa [hdeltas]⟩
  · intro msgs hmsgs
    rcases mem_pair.1 hmsgs with rfl | rfl
    · exact ⟨late, _, run_of_isSome _ _ _ (by decide +kernel), rfl,
        by unfold Handled; decide +kernel, by decide +kernel⟩
    · exact ⟨unread, _, run_of_isSome _ _ _ (by decide +kernel), rfl,
        by unfold Handled; decide +kernel, by decide +kernel⟩

end Omni.Detokenize
