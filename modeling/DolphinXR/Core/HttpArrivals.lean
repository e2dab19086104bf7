import DolphinXR.Core.HttpParser

/- How the requests of a client depend on the chunks they arrive in. The end of the headers is
   looked for in all of the buffer, but while it is not there the buffer's own size is tested: a
   head of a size that is allowed is refused when the chunks end within its last line ends. All
   other arrivals come to what the whole stream comes to. -/
namespace DolphinXR.AgentServer.Http
open Common Lib Search StreamParser

/-- A complete request, and nothing else. -/
def IsRequest (request : Text) : Prop :=
  ∃ headerEnd out length, find terminator request = some headerEnd ∧
    headerEnd ≤ maxHttpHeaderBytes ∧ parseHead (request.take headerEnd) = .ok (out, length) ∧
    request.length = headerEnd + 4 + length

/-- What is pending is longer than a head may be, and only what follows ends the head, which is not too
    long then and does not announce a body that is. -/
def CutHere (pending future : Text) : Prop :=
  maxHttpHeaderBytes < pending.length ∧ find terminator pending = none ∧
    ∃ headerEnd ≤ maxHttpHeaderBytes, find terminator (pending ++ future) = some headerEnd ∧
      parseHead ((pending ++ future).take headerEnd) ≠ .error .tooLarge

def CutInTerminator (received future : Text) : Prop :=
  ∃ (requests : List Text) (pending : Text), (∀ request ∈ requests, IsRequest request) ∧
      received = requests.flatten ++ pending ∧ CutHere pending future

section
variable {pending received future buffer : Text} {refusal : Refusal}

theorem parse_pending (hlength : maxHttpHeaderBytes < pending.length)
    (hnone : find terminator pending = none) :
    parseHttpRequest pending = .refused .tooLarge := by
  rw [parseHttpRequest, hnone]
  exact if_pos hlength

theorem parse_pending_append_iff (hlength : maxHttpHeaderBytes < pending.length)
    (hnone : find terminator pending = none) (future : Text) :
    parseHttpRequest (pending ++ future) = .refused .tooLarge ↔ ¬CutHere pending future := by
  have hcut : CutHere pending future ↔ ∃ headerEnd ≤ maxHttpHeaderBytes,
      find terminator (pending ++ future) = some headerEnd ∧
        parseHead ((pending ++ future).take headerEnd) ≠ .error .tooLarge :=
    ⟨fun h => h.2.2, fun h => ⟨hlength, hnone, h⟩⟩
  rw [hcut, parseHttpRequest]
  cases hfind : find terminator (pending ++ future) with
  | none =>
    have hlength' : maxHttpHeaderBytes < (pending ++ future).length := by
      rw [List.length_append]
      omega
    refine iff_of_true (if_pos hlength') ?_
    rintro ⟨headerEnd, -, hsome, -⟩
    cases hsome
  | some headerEnd =>
    dsimp only
    by_cases hlimit : headerEnd > maxHttpHeaderBytes
    · refine iff_of_true (if_pos hlimit) ?_
      rintro ⟨headerEnd', hle, hsome, -⟩
      cases hsome
      omega
    · rw [if_neg hlimit]
      have hexists : (∃ headerEnd' ≤ maxHttpHeaderBytes, some headerEnd = some headerEnd' ∧
          parseHead ((pending ++ future).take headerEnd') ≠ .error .tooLarge) ↔
          parseHead ((pending ++ future).take headerEnd) ≠ .error .tooLarge := by
        constructor
        · rintro ⟨_, -, hsome, hne⟩
          cases hsome
          exact hne
        · exact fun hne => ⟨headerEnd, Nat.le_of_not_lt hlimit, rfl, hne⟩
      rw [hexists, not_not]
      cases parseHead ((pending ++ future).take headerEnd) with
      | error refusal => simp
      | ok x =>
        refine iff_of_false ?_ (by rintro ⟨⟩)
        dsimp only
        split <;> rintro ⟨⟩

theorem find_eq_none_iff (h : parseHttpRequest pending = .refused refusal) :
    find terminator pending = none →
      maxHttpHeaderBytes < pending.length ∧ refusal = .tooLarge := by
  intro hnone
  rw [parseHttpRequest, hnone] at h
  dsimp only at h
  split at h
  · rename_i hlength
    cases h
    exact ⟨hlength, rfl⟩
  · cases h

theorem not_cutHere_nil : ¬CutHere pending [] := by
  rintro ⟨-, hnone, headerEnd, -, hfind, -⟩
  rw [List.append_nil, hnone] at hfind
  cases hfind

theorem CutHere.append {more : Text} (h : CutHere pending more) (future : Text) :
    CutHere pending (more ++ future) := by
  obtain ⟨hlength, hnone, headerEnd, hlimit, hfind, hhead⟩ := h
  have hle := add_length_le_of_find hfind
  have htake : (pending ++ more ++ future).take headerEnd = (pending ++ more).take headerEnd :=
    List.take_append_of_le_length (by omega)
  rw [← htake] at hhead
  have hmore := find_append hfind future
  rw [List.append_assoc] at hhead hmore
  exact ⟨hlength, hnone, headerEnd, hlimit, hmore, hhead⟩

/-! The requests before. -/

theorem parse_request {request : Text} (h : IsRequest request) :
    ∃ out, ∀ rest, parseHttpRequest (request ++ rest) = .ok out request.length := by
  obtain ⟨headerEnd, out, length, hfind, hlimit, hhead, hlength⟩ := h
  have hdone : parseHttpRequest request = .ok
      { out with body := (request.drop (headerEnd + 4)).take length } request.length := by
    rw [parseHttpRequest, hfind]
    dsimp only
    rw [if_neg (Nat.not_lt.2 hlimit), hhead]
    dsimp only
    rw [if_neg (by omega), hlength]
  have hbody : ∀ out, parseHttpRequest request ≠ .needBody out := by
    intro out' hbody
    rw [hdone] at hbody
    cases hbody
  exact ⟨_, fun rest => (parseHttpRequest_append hfind hbody rest).trans hdone⟩

theorem isRequest_take {out : HttpRequest} {consumed : Nat}
    (h : parseHttpRequest buffer = .ok out consumed) : IsRequest (buffer.take consumed) := by
  obtain ⟨headerEnd, out', length, hfind, hlimit, hhead, hconsumed, hle⟩ := exists_of_ok h
  have hlength : (buffer.take consumed).length = consumed := List.length_take_of_le hle
  have hfind' : find terminator (buffer.take consumed) = some headerEnd := by
    rw [← List.take_append_drop consumed buffer] at hfind
    refine find_of_append hfind ?_
    change headerEnd + 4 ≤ _
    omega
  refine ⟨headerEnd, out', length, hfind', hlimit, ?_, hlength.trans hconsumed⟩
  rw [List.take_take, Nat.min_eq_left (by omega), hhead]

theorem drain_requests {requests : List Text} (h : ∀ request ∈ requests, IsRequest request) :
    ∃ items, ∀ rest, drain httpParser (requests.flatten ++ rest) =
      (drain httpParser rest).after items := by
  induction requests with
  | nil => exact ⟨[], fun rest => rfl⟩
  | cons request requests ih =>
    obtain ⟨items, hitems⟩ := ih fun r hr => h r (List.mem_cons_of_mem _ hr)
    obtain ⟨out, hparse⟩ := parse_request (h request (List.mem_cons_self ..))
    refine ⟨.ok out request.length :: items, fun rest => ?_⟩
    rw [List.flatten_cons, List.append_assoc]
    have hconsumed : httpParser.consumed (httpParser.parse (request ++ (requests.flatten ++ rest))) =
        some request.length := congrArg HttpParseStatus.consumed (hparse _)
    rw [drain_of_consumed hconsumed, List.drop_left, hitems, Drained.after_after]
    exact congrArg (fun status => (drain httpParser rest).after (status :: items)) (hparse _)

theorem exists_requests (received : Text) :
    ∃ requests : List Text, (∀ request ∈ requests, IsRequest request) ∧
      received = requests.flatten ++ (drain httpParser received).rest := by
  induction received using drain_induction (P := httpParser) with
  | h received n h ih =>
    obtain ⟨requests, hrequests, hrest⟩ := ih
    obtain ⟨out, hok⟩ := HttpParseStatus.eq_ok h
    refine ⟨received.take n :: requests, ?_, ?_⟩
    · exact List.forall_mem_cons.2 ⟨isRequest_take hok, hrequests⟩
    · rw [List.flatten_cons, List.append_assoc, drain_of_consumed h]
      exact (List.take_append_drop n received).symm.trans (congrArg (received.take n ++ ·) hrest)
  | h' received h =>
    refine ⟨[], List.forall_mem_nil _, ?_⟩
    rw [drain_of_not_consumed h]
    rfl

/-! Where the server stops. -/

theorem outcome_eq_refused_iff :
    (drain httpParser buffer).outcome = ([], .refused refusal) ↔
      parseHttpRequest buffer = .refused refusal := by
  cases hconsumed : httpParser.consumed (httpParser.parse buffer) with
  | none =>
    rw [drain_of_not_consumed hconsumed]
    constructor
    · exact fun h => congrArg Prod.snd h
    · exact fun h => congrArg (Prod.mk []) h
  | some n =>
    obtain ⟨out, hok⟩ := HttpParseStatus.eq_ok hconsumed
    change parseHttpRequest buffer = _ at hok
    rw [drain_of_consumed hconsumed, hok]
    refine iff_of_false ?_ nofun
    intro h
    exact List.cons_ne_nil _ _ (congrArg Prod.fst h)

theorem exists_refused (h : httpParser.stops (drain httpParser received).last = true) :
    ∃ refusal, parseHttpRequest (drain httpParser received).rest = .refused refusal ∧
      (drain httpParser received).last = .refused refusal := by
  have hlast := last_drain (P := httpParser) received
  change _ = parseHttpRequest _ at hlast
  rw [← hlast]
  cases hstatus : (drain httpParser received).last with
  | refused refusal => exact ⟨refusal, rfl, rfl⟩
  | _ => rw [hstatus] at h; cases h

theorem cutInTerminator_iff :
    CutInTerminator received future ↔ CutHere (drain httpParser received).rest future := by
  constructor
  · rintro ⟨requests, pending, hrequests, rfl, hcut⟩
    obtain ⟨items, hitems⟩ := drain_requests hrequests
    have hparse := parse_pending hcut.1 hcut.2.1
    have hrest : (drain httpParser pending).rest = pending := by
      rw [drain_of_not_consumed (congrArg HttpParseStatus.consumed hparse)]
    rw [hitems]
    change CutHere (drain httpParser pending).rest future
    rwa [hrest]
  · intro hcut
    obtain ⟨requests, hrequests, hreceived⟩ := exists_requests received
    exact ⟨requests, _, hrequests, hreceived, hcut⟩

theorem stops_of_cut (h : CutInTerminator received future) :
    httpParser.stops (drain httpParser received).last = true := by
  have hcut := cutInTerminator_iff.1 h
  rw [last_drain]
  exact congrArg HttpParseStatus.stops (parse_pending hcut.1 hcut.2.1)

theorem parse_append_of_find {more : Text} (h : parseHttpRequest pending = .refused refusal)
    (hfind : find terminator pending ≠ none) :
    parseHttpRequest (pending ++ more) = .refused refusal := by
  obtain ⟨headerEnd, hsome⟩ := Option.ne_none_iff_exists'.1 hfind
  rw [parseHttpRequest_append hsome (by rw [h]; exact nofun), h]

theorem outcome_eq_iff (h : httpParser.stops (drain httpParser received).last = true)
    (future : Text) :
    (drain httpParser received).outcome = (drain httpParser (received ++ future)).outcome ↔
      ¬CutInTerminator received future := by
  obtain ⟨refusal, hparse, hlast⟩ := exists_refused h
  rw [cutInTerminator_iff, drain_append]
  generalize hd : drain httpParser received = d at *
  have hsame : d.outcome = ((drain httpParser (d.rest ++ future)).after d.items).outcome ↔
      (drain httpParser (d.rest ++ future)).outcome = ([], .refused refusal) := by
    rw [Drained.outcome, Drained.outcome, Drained.outcome, hlast, Drained.after, Prod.mk.injEq,
      Prod.mk.injEq, List.self_eq_append_right, eq_comm (a := HttpParseStatus.refused refusal)]
  rw [hsame, outcome_eq_refused_iff]
  cases hfind : find terminator d.rest with
  | none =>
    obtain ⟨hlength, rfl⟩ := find_eq_none_iff hparse hfind
    exact parse_pending_append_iff hlength hfind future
  | some headerEnd =>
    refine iff_of_true (parse_append_of_find hparse (by rw [hfind]; exact Option.some_ne_none _)) ?_
    rintro ⟨-, hnone, -⟩
    rw [hfind] at hnone
    cases hnone

theorem cutInTerminator_of_append {more : Text}
    (h : httpParser.stops (drain httpParser received).last = true)
    (hcut : CutInTerminator (received ++ more) future) :
    CutInTerminator received (more ++ future) := by
  obtain ⟨refusal, hparse, hlast⟩ := exists_refused h
  rw [cutInTerminator_iff] at hcut ⊢
  rw [drain_append] at hcut
  generalize (drain httpParser received).rest = pending at *
  change CutHere (drain httpParser (pending ++ more)).rest future at hcut
  have hrest : ∀ refusal, parseHttpRequest (pending ++ more) = .refused refusal →
      CutHere (pending ++ more) future := by
    intro refusal hmore
    rwa [drain_of_not_consumed (congrArg HttpParseStatus.consumed hmore)] at hcut
  cases hfind : find terminator pending with
  | some headerEnd =>
    have hcut' := hrest _ (parse_append_of_find hparse (by rw [hfind]; exact nofun))
    have hnone := hcut'.2.1
    rw [find_append hfind] at hnone
    cases hnone
  | none =>
    obtain ⟨hlength, rfl⟩ := find_eq_none_iff hparse hfind
    by_cases hmore : CutHere pending more
    · exact hmore.append future
    · obtain ⟨-, -, hend⟩ := hrest _ ((parse_pending_append_iff hlength hfind more).2 hmore)
      rw [List.append_assoc] at hend
      exact ⟨hlength, hfind, hend⟩

theorem receiveAll_outcome_iff (chunks : List Text) :
    (receiveAll httpParser chunks).outcome = (receiveAll httpParser [chunks.flatten]).outcome ↔
      ∀ before after, chunks = before ++ after →
        ¬CutInTerminator before.flatten after.flatten := by
  obtain ⟨before, after, rfl, hrun, hafter, hgoesOn⟩ := receiveAll_eq_drain (P := httpParser) chunks
  have hwhole : receiveAll httpParser [(before ++ after).flatten] =
      drain httpParser (before.flatten ++ after.flatten) := by
    rw [receiveAll_singleton _ rfl, List.flatten_append]
  rw [hrun, hwhole]
  constructor
  · intro heq before' after' hsplit hcut
    -- The server has not stopped before the last of `before`, so it has by the cut.
    obtain ⟨more, rfl, rfl⟩ : ∃ more, before' = before ++ more ∧ after = more ++ after' := by
      rcases List.append_eq_append_iff.1 hsplit with ⟨more, rfl, rfl⟩ | ⟨more, rfl, rfl⟩
      · exact ⟨more, rfl, rfl⟩
      · by_cases hmore : more = []
        · subst hmore
          exact ⟨[], by simp, rfl⟩
        · have hstops := stops_of_cut hcut
          rw [hgoesOn before' more rfl hmore] at hstops
          cases hstops
    rcases hafter with hnil | hstops
    · obtain ⟨rfl, rfl⟩ := List.append_eq_nil_iff.1 hnil
      obtain ⟨_, pending, _, _, hhere⟩ := hcut
      exact not_cutHere_nil hhere
    · refine (outcome_eq_iff hstops _).1 heq ?_
      rw [List.flatten_append] at hcut ⊢
      exact cutInTerminator_of_append hstops hcut
  · intro hcuts
    rcases hafter with rfl | hstops
    · rw [List.flatten_nil, List.append_nil]
    · exact (outcome_eq_iff hstops _).2 (hcuts before after rfl)

theorem parse_append_iff (buffer more : Text)
    (h : parseHttpRequest buffer ≠ .needHeaders ∧ ∀ out, parseHttpRequest buffer ≠ .needBody out) :
    parseHttpRequest (buffer ++ more) = parseHttpRequest buffer ↔ ¬CutHere buffer more := by
  cases hfind : find terminator buffer with
  | some headerEnd =>
    refine iff_of_true (parseHttpRequest_append hfind h.2 more) ?_
    rintro ⟨-, hnone, -⟩
    rw [hfind] at hnone
    cases hnone
  | none =>
    have hlength : maxHttpHeaderBytes < buffer.length := by
      by_contra hle
      refine h.1 ?_
      rw [parseHttpRequest, hfind]
      exact if_neg hle
    rw [parse_pending hlength hfind]
    exact parse_pending_append_iff hlength hfind more

end

/-- The chunks a stream arrives in make no difference just if none of them ends within the line ends
    of a head that is nearly too long; a status that is not one of waiting stays just if the buffer
    does not end so; and a request is no longer than its buffer. -/
theorem arrivals_iff (chunks : List Text) :
    ((receiveAll httpParser chunks).outcome = (receiveAll httpParser [chunks.flatten]).outcome ↔
      ∀ before after, chunks = before ++ after →
        ¬CutInTerminator before.flatten after.flatten) ∧
    (∀ buffer more, (parseHttpRequest buffer ≠ .needHeaders ∧
        ∀ out, parseHttpRequest buffer ≠ .needBody out) →
      (parseHttpRequest (buffer ++ more) = parseHttpRequest buffer ↔ ¬CutHere buffer more)) ∧
    ∀ buffer out consumed, parseHttpRequest buffer = .ok out consumed →
      consumed ≤ buffer.length :=
  ⟨receiveAll_outcome_iff chunks, parse_append_iff, fun _ _ _ => consumed_le⟩

/-! A head that is just not too long. -/

def longHead : Text := "GET /".toList ++ List.replicate 16370 'a' ++ " HTTP/1.1".toList

theorem length_longHead : longHead.length = maxHttpHeaderBytes := by
  change ("GET /".toList ++ List.replicate 16370 'a' ++ " HTTP/1.1".toList).length = _
  rw [List.length_append, List.length_append, List.length_replicate]
  rfl

theorem not_mem_longHead : '\r' ∉ longHead := by
  change '\r' ∉ "GET /".toList ++ List.replicate 16370 'a' ++ " HTTP/1.1".toList
  rw [List.mem_append, List.mem_append, List.mem_replicate]
  decide

theorem splitLines_of_not_mem {line : Text} (h : '\r' ∉ line) : splitLines line = (line, []) := by
  induction line with
  | nil => rfl
  | cons c line ih =>
    rw [List.mem_cons, not_or] at h
    rw [splitLines, ih h.2]
    rintro head rfl
    exact absurd rfl h.1

theorem parseHead_of_not_mem {head : Text} (h : '\r' ∉ head) :
    parseHead head ≠ .error .tooLarge := by
  rw [parseHead, splitLines_of_not_mem h]
  cases parseRequestLine head with
  | none => exact nofun
  | some out => exact nofun

/-- The first line end of the head's end arrives in time, and the rest later. -/
theorem arrivals_longHead :
    (receiveAll httpParser [longHead ++ ['\r'], ['\n', '\r', '\n']]).outcome ≠
      (receiveAll httpParser [longHead ++ terminator]).outcome := by
  have hcut : CutHere (longHead ++ ['\r']) ['\n', '\r', '\n'] := by
    refine ⟨?_, ?_, maxHttpHeaderBytes, le_rfl, ?_, ?_⟩
    · rw [List.length_append, length_longHead]
      exact Nat.lt_succ_self _
    · exact find_append_of_not_mem not_mem_longHead _
    · rw [List.append_assoc]
      refine (find_append_of_not_mem not_mem_longHead _).trans ?_
      rw [length_longHead]
      rfl
    · rw [List.append_assoc, ← length_longHead, List.take_left]
      exact parseHead_of_not_mem not_mem_longHead
  intro heq
  have hflatten : [longHead ++ ['\r'], ['\n', '\r', '\n']].flatten = longHead ++ terminator := by
    simp [terminator]
  rw [← hflatten, receiveAll_outcome_iff] at heq
  refine heq [longHead ++ ['\r']] [['\n', '\r', '\n']] rfl ⟨[], longHead ++ ['\r'], ?_, ?_, hcut⟩
  · exact List.forall_mem_nil _
  · exact List.append_nil _

end DolphinXR.AgentServer.Http
