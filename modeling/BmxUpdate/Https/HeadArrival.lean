import BmxUpdate.Https.HeadGrammar
import BmxUpdate.Https.Request

/-!
# How a head arrives

`ParseHttpResponseHead` is called again after every read, on all the bytes so
far.  Once it has answered anything but that it needs more, more bytes change
nothing (`parseHeadInto_append`), so the loop of `HttpsRequest` ends the same
way however its peer splits the bytes (`arrives_receiveHead`).
-/

namespace BmxUpdate

namespace Https

open Wire Checks Http Interaction

/-! ## The outputs of a call -/

/-- What a call leaves; an output is `none` where it was not written. -/
structure HeadOutput where
  status : HttpParseStatus
  head : Option HttpResponseHead
  headerBytes : Option Nat
deriving DecidableEq

/-- The header lines, with the head as it is when they end: at the empty line, in an error, or
where there is no more (`none`). -/
def runFields (fields : HeadFields) (input : Bytes) :
    HeadFields × Except (Option HttpParseStatus) Bytes :=
  if input.length < 2 then (fields, .error none)
  else if input.take 2 = crlf then (fields, .ok (input.drop 2))
  else if input.head?.any isBlank then (fields, .error (some .invalidHeader))
  else
    match _hfound : findCrlf input with
    | none => (fields, .error none)
    | some (line, rest) =>
        match parseField fields line with
        | .error e => (fields, .error (some e))
        | .ok fields => runFields fields rest
termination_by input.length
decreasing_by
  have hlength := findCrlf_length _hfound
  simp only at hlength
  omega

/-- The checks after the empty line. -/
def checkFraming (head : HttpResponseHead) : HttpParseStatus :=
  if head.hasContentLength ∧ head.chunked then .ambiguousBodyLength
  else if ¬head.hasContentLength ∧ ¬head.chunked ∧
      ¬statusMayHaveUnframedBody head.statusCode then .missingBodyLength
  else if 300 ≤ head.statusCode ∧ head.statusCode < 400 ∧ head.location = [] then
    .missingLocation
  else .ok

/-- `ParseHttpResponseHead` with its outputs. -/
def parseHeadInto (input : Bytes) : HeadOutput :=
  let input := input.take kMaximumHttpHeaderBytes
  let incomplete : HttpParseStatus :=
    if input.length = kMaximumHttpHeaderBytes then .headerTooLarge else .needMoreData
  match findCrlf input with
  | none => ⟨incomplete, none, none⟩
  | some (line, rest) =>
      match parseStatusLine line with
      | .error e => ⟨e, none, none⟩
      | .ok code =>
          match runFields (noFields code) rest with
          | (fields, .error none) => ⟨incomplete, some fields.head, none⟩
          | (fields, .error (some e)) => ⟨e, some fields.head, none⟩
          | (fields, .ok body) =>
              ⟨checkFraming fields.head, some fields.head, some (input.length - body.length)⟩

theorem parseFields_eq (incomplete : HttpParseStatus) (fields : HeadFields) (input : Bytes) :
    parseFields incomplete fields input =
      match runFields fields input with
      | (fields, .ok rest) => .ok (fields, rest)
      | (_, .error e) => .error (e.getD incomplete) := by
  induction hn : input.length using Nat.strong_induction_on generalizing fields input with
  | _ n ih =>
      rw [parseFields, runFields]
      split
      · rfl
      · split
        · rfl
        · split
          · rfl
          · cases hfound : findCrlf input with
            | none => rfl
            | some found =>
                obtain ⟨line, rest⟩ := found
                have hlength := findCrlf_length hfound
                simp only at hlength ⊢
                cases parseField fields line with
                | error e => rfl
                | ok next => exact ih rest.length (by omega) next rest rfl

theorem ok_bind {ε α β : Type} (a : α) (k : α → Except ε β) :
    ((.ok a : Except ε α) >>= k) = k a := rfl

theorem reject_bind {ε β : Type} (condition : Prop) [Decidable condition] (e : ε)
    (k : PUnit → Except ε β) :
    (reject condition e >>= k) = if condition then .error e else k ⟨⟩ := by
  unfold reject
  split <;> rfl

/-- The status and, where it is `Ok`, the head and its size are those of the model without
outputs. -/
theorem parseHttpResponseHead_eq (input : Bytes) :
    parseHttpResponseHead input =
      match parseHeadInto input with
      | ⟨.ok, some head, some size⟩ => .ok (head, size)
      | ⟨status, _, _⟩ => .error status := by
  unfold parseHttpResponseHead parseHeadInto
  dsimp only
  generalize (if (input.take kMaximumHttpHeaderBytes).length = kMaximumHttpHeaderBytes then
    HttpParseStatus.headerTooLarge else .needMoreData) = incomplete
  have hfailed : ∀ (e : HttpParseStatus) (head : Option HttpResponseHead),
      (.error e : Except HttpParseStatus (HttpResponseHead × Nat)) =
        match (⟨e, head, none⟩ : HeadOutput) with
        | ⟨.ok, some head, some size⟩ => .ok (head, size)
        | ⟨status, _, _⟩ => .error status := by
    intro e head
    cases e <;> cases head <;> rfl
  cases findCrlf (input.take kMaximumHttpHeaderBytes) with
  | none => exact hfailed incomplete none
  | some found =>
      obtain ⟨line, rest⟩ := found
      dsimp only
      cases parseStatusLine line with
      | error e => exact hfailed e none
      | ok code =>
          have hfields := parseFields_eq incomplete (noFields code) rest
          unfold noFields at hfields ⊢
          rw [ok_bind, hfields]
          dsimp only
          cases hrun : runFields
              ⟨⟨code, false, 0, false, false, [], []⟩, false, false, false, false, false⟩ rest with
          | mk fields ended =>
              cases ended with
              | error e =>
                  cases e with
                  | none => exact hfailed incomplete _
                  | some e => exact hfailed e _
              | ok body =>
                  simp only [ok_bind, reject_bind]
                  unfold checkFraming
                  split
                  · rfl
                  · split
                    · rfl
                    · split
                      · rfl
                      · rfl

/-! ## The bytes that follow do not matter -/

theorem runFields_append {fields : HeadFields} {input x : Bytes}
    (h : (runFields fields input).2 ≠ .error none) :
    runFields fields (input ++ x) =
      ((runFields fields input).1, (runFields fields input).2.map (· ++ x)) := by
  induction hn : input.length using Nat.strong_induction_on generalizing fields input with
  | _ n ih =>
      by_cases hlong : input.length < 2
      · rw [runFields, if_pos hlong] at h
        exact absurd rfl h
      have hlong' : ¬(input ++ x).length < 2 := by
        rw [List.length_append]
        omega
      have htake : (input ++ x).take 2 = input.take 2 := by
        rw [List.take_append_of_le_length (by omega)]
      have hhead : (input ++ x).head? = input.head? := by
        cases input with
        | nil => exact absurd (Nat.zero_lt_succ 1) hlong
        | cons c input => rfl
      rw [runFields, if_neg hlong] at h
      rw [runFields.eq_def fields (input ++ x), if_neg hlong', htake, hhead, runFields.eq_def fields input, if_neg hlong]
      by_cases hend : input.take 2 = crlf
      · rw [if_pos hend, if_pos hend, List.drop_append_of_le_length (by omega)]
        rfl
      rw [if_neg hend] at h
      rw [if_neg hend, if_neg hend]
      by_cases hblank : input.head?.any isBlank = true
      · rw [if_pos hblank, if_pos hblank]
        rfl
      rw [if_neg hblank] at h
      rw [if_neg hblank, if_neg hblank]
      cases hfound : findCrlf input with
      | none =>
          rw [hfound] at h
          exact absurd rfl h
      | some found =>
          obtain ⟨line, rest⟩ := found
          have hlength := findCrlf_length hfound
          have happend := findCrlf_append (x := x) hfound
          simp only at hlength happend
          rw [hfound] at h
          rw [happend]
          simp only at h ⊢
          cases hfield : parseField fields line with
          | error e => rfl
          | ok next =>
              rw [hfield] at h
              exact ih _ (by omega) h rfl
/-- More bytes change nothing where the answer was not that more are needed. -/
theorem parseHeadInto_append {input : Bytes} (x : Bytes)
    (h : (parseHeadInto input).status ≠ .needMoreData) :
    parseHeadInto (input ++ x) = parseHeadInto input := by
  by_cases hfull : kMaximumHttpHeaderBytes ≤ input.length
  · have htake : (input ++ x).take kMaximumHttpHeaderBytes =
        input.take kMaximumHttpHeaderBytes := List.take_append_of_le_length hfull
    unfold parseHeadInto
    rw [htake]
  obtain ⟨more, hmore⟩ : ∃ more, (input ++ x).take kMaximumHttpHeaderBytes = input ++ more := by
    rw [List.take_append, List.take_of_length_le (by omega)]
    exact ⟨_, rfl⟩
  have hwhole : input.take kMaximumHttpHeaderBytes = input := List.take_of_length_le (by omega)
  unfold parseHeadInto at h ⊢
  rw [hwhole] at h ⊢
  rw [hmore]
  dsimp only at h ⊢
  rw [if_neg (show ¬input.length = kMaximumHttpHeaderBytes by omega)] at h ⊢
  generalize (if (input ++ more).length = kMaximumHttpHeaderBytes then
    HttpParseStatus.headerTooLarge else .needMoreData) = incomplete
  cases hfound : findCrlf input with
  | none =>
      rw [hfound] at h
      exact absurd rfl h
  | some found =>
      obtain ⟨line, rest⟩ := found
      have happend := findCrlf_append (x := more) hfound
      have hlength := findCrlf_length hfound
      simp only at happend hlength
      rw [hfound] at h
      rw [happend]
      dsimp only at h ⊢
      cases hstatus : parseStatusLine line with
      | error e => rfl
      | ok code =>
          rw [hstatus] at h
          dsimp only at h ⊢
          cases hrun : runFields (noFields code) rest with
          | mk fields ended =>
              rw [hrun] at h
              have hstable := @runFields_append (noFields code) rest more
              rw [hrun] at hstable
              cases ended with
              | error e =>
                  cases e with
                  | none => exact absurd rfl h
                  | some e =>
                      rw [hstable nofun]
                      rfl
              | ok body =>
                  rw [hstable nofun]
                  dsimp only [Except.map]
                  rw [List.length_append, List.length_append, Nat.add_sub_add_right]

/-! ## The loop -/

/-- The statuses of bytes that are refused for good. -/
def IsRefusal (e : HttpParseStatus) : Prop := e ≠ .ok ∧ e ≠ .needMoreData

instance : DecidablePred IsRefusal := fun e =>
  inferInstanceAs (Decidable (e ≠ .ok ∧ e ≠ .needMoreData))

/-- It fails with a refusal, if at all. -/
def Refuses {α : Type} (x : Except HttpParseStatus α) : Prop := ∀ e, x = .error e → IsRefusal e

section Refuses

variable {α : Type} {condition : Prop} [Decidable condition]

theorem refuses_ok (a : α) : Refuses (.ok a) := nofun

theorem refuses_error {e : HttpParseStatus} (he : IsRefusal e) :
    Refuses (.error e : Except HttpParseStatus α) := by
  rintro _ ⟨⟩
  exact he

theorem refuses_reject {e : HttpParseStatus} {k : PUnit → Except HttpParseStatus α}
    (he : IsRefusal e) (h : Refuses (k ⟨⟩)) : Refuses (reject condition e >>= k) := by
  rw [reject_bind]
  split
  · exact refuses_error he
  · exact h

theorem refuses_ite {x y : Except HttpParseStatus α} (hx : Refuses x) (hy : Refuses y) :
    Refuses (if condition then x else y) := by
  split
  · exact hx
  · exact hy

end Refuses

theorem refuses_parseField (fields : HeadFields) (line : Bytes) :
    Refuses (parseField fields line) := by
  unfold parseField
  dsimp only
  refine refuses_reject (by decide) (refuses_reject (by decide) (refuses_reject (by decide) ?_))
  refine refuses_ite ?_ (refuses_ite ?_ (refuses_ite ?_ (refuses_ite ?_ (refuses_ite ?_
    (refuses_ite ?_ ?_)))))
  · refine refuses_reject (by decide) ?_
    split
    · exact refuses_error (by decide)
    · exact refuses_ok _
  · exact refuses_reject (by decide) (refuses_reject (by decide) (refuses_ok _))
  · exact refuses_reject (by decide) (refuses_reject (by decide) (refuses_ok _))
  · exact refuses_reject (by decide) (refuses_reject (by decide) (refuses_ok _))
  · exact refuses_reject (by decide) (refuses_reject (by decide) (refuses_ok _))
  · exact refuses_reject (by decide) (refuses_ok _)
  · exact refuses_reject (by decide) (refuses_ok _)

theorem refuses_parseStatusLine (line : Bytes) : Refuses (parseStatusLine line) := by
  unfold parseStatusLine
  split
  · exact refuses_ite (refuses_ok _) (refuses_error (by decide))
  · exact refuses_error (by decide)

theorem runFields_error {fields fields' : HeadFields} {input : Bytes} {e : HttpParseStatus}
    (h : runFields fields input = (fields', .error (some e))) : IsRefusal e := by
  induction hn : input.length using Nat.strong_induction_on generalizing fields input with
  | _ n ih =>
      rw [runFields] at h
      split at h
      · cases h
      · split at h
        · cases h
        · split at h
          · cases h
            decide
          · cases hfound : findCrlf input with
            | none =>
                rw [hfound] at h
                cases h
            | some found =>
                obtain ⟨line, rest⟩ := found
                have hlength := findCrlf_length hfound
                rw [hfound] at h
                simp only at h hlength
                cases hfield : parseField fields line with
                | error e' =>
                    rw [hfield] at h
                    cases h
                    exact refuses_parseField _ _ _ hfield
                | ok next =>
                    rw [hfield] at h
                    exact ih _ (by omega) h rfl

theorem checkFraming_ne (head : HttpResponseHead) : checkFraming head ≠ .needMoreData := by
  unfold checkFraming
  split
  · nofun
  · split
    · nofun
    · split
      · nofun
      · nofun

/-- How the status of a call is found. -/
theorem parseHeadInto_cases (input : Bytes) :
    (parseHeadInto input).status =
        (if (input.take kMaximumHttpHeaderBytes).length = kMaximumHttpHeaderBytes then
          .headerTooLarge else .needMoreData) ∨
      IsRefusal (parseHeadInto input).status ∨
      ∃ head size, parseHeadInto input = ⟨checkFraming head, some head, some size⟩ := by
  unfold parseHeadInto
  dsimp only
  split
  · exact .inl rfl
  · next line rest _ =>
      cases hstatus : parseStatusLine line with
      | error e => exact .inr (.inl (refuses_parseStatusLine _ _ hstatus))
      | ok code =>
          dsimp only
          cases hrun : runFields (noFields code) rest with
          | mk fields ended =>
              cases ended with
              | error e =>
                  cases e with
                  | none => exact .inl rfl
                  | some e => exact .inr (.inl (runFields_error hrun))
              | ok body => exact .inr (.inr ⟨_, _, rfl⟩)

/-- More is needed only of bytes that can grow. -/
theorem length_of_needMoreData {input : Bytes}
    (h : (parseHeadInto input).status = .needMoreData) :
    input.length < kMaximumHttpHeaderBytes := by
  by_contra hfull
  have hincomplete : (input.take kMaximumHttpHeaderBytes).length = kMaximumHttpHeaderBytes := by
    rw [List.length_take]
    omega
  rcases parseHeadInto_cases input with hstatus | hstatus | ⟨head, size, heq⟩
  · rw [if_pos hincomplete, h] at hstatus
    cases hstatus
  · exact hstatus.2 h
  · rw [heq] at h
    exact checkFraming_ne head h

/-- A peer that sends these bytes, in any pieces, to a client that nobody stops.  Its world is
what has not been received. -/
def peer : Surroundings HttpsOp HttpsAnswer Bytes where
  answers := fun rest op x rest' =>
    match op with
    | .checkpoint _ _ _ => x = true ∧ rest' = rest
    | .receive _ capacity =>
        match (x : Option { data : Bytes // 0 < data.length ∧ data.length ≤ capacity }) with
        | none => rest = [] ∧ rest' = rest
        | some data => rest = data.val ++ rest'
    | _ => rest' = rest
  halts := fun _ _ _ => False

/-- How the loop ends for a peer that sends `bytes`. -/
def Arrived (bytes : Bytes) (result : HttpsGetResult)
    (outcome : HttpsGetResult × Bytes × Option (HttpResponseHead × Nat)) : Prop :=
  match parseHttpResponseHead bytes with
  | .ok found =>
      outcome.1.status = result.status ∧ outcome.1.headerStatus = .ok ∧ outcome.2.2 = some found
  | .error .needMoreData => outcome.1.status = .receiveFailed ∧ outcome.2.2 = none
  | .error e =>
      outcome.1.status = result.status ∧ outcome.1.headerStatus = e ∧ outcome.2.2 = none

theorem status_of_parse {input : Bytes} {e : HttpParseStatus}
    (h : parseHttpResponseHead input = .error e) : (parseHeadInto input).status = e := by
  rw [parseHttpResponseHead_eq] at h
  split at h
  · cases h
  · next heq =>
      rw [heq]
      exact Except.error.inj h

theorem parse_append {input : Bytes} (x : Bytes)
    (h : (parseHeadInto input).status ≠ .needMoreData) :
    parseHttpResponseHead (input ++ x) = parseHttpResponseHead input := by
  rw [parseHttpResponseHead_eq, parseHttpResponseHead_eq, parseHeadInto_append x h]

theorem parse_ok_status {input : Bytes} {found : HttpResponseHead × Nat}
    (h : parseHttpResponseHead input = .ok found) : (parseHeadInto input).status = .ok := by
  rw [parseHttpResponseHead_eq] at h
  split at h
  · next heq => rw [heq]
  · cases h

theorem guarded_peer_checkpoint {arguments : HttpsArguments} {α : Type} {Q : α → Bytes → Prop}
    {R : HttpsGetResult → Bytes → Prop} {k : Bool → HttpsProc α} {rest : Bytes}
    (h : Fallible.Guarded peer (fun _ _ => True) Q R (k true) rest) :
    Fallible.Guarded peer (fun _ _ => True) Q R (networkCheckpoint arguments 0 0 >>= k) rest := by
  unfold networkCheckpoint
  cases arguments.foregroundProgress with
  | true =>
      apply Fallible.guarded_ask
      · trivial
      · rintro answer rest' ⟨rfl, rfl⟩
        exact h
  | false => exact Fallible.guarded_bind (Fallible.guarded_pure h)

/-- The loop ends the same way for every way the bytes are split. -/
theorem arrives_receiveHead {arguments : HttpsArguments} {stream : Nat} {result : HttpsGetResult}
    {headers rest : Bytes} (hmore : (parseHeadInto headers).status = .needMoreData) :
    Fallible.Guarded peer (fun _ _ => True)
      (fun outcome _ => Arrived (headers ++ rest) result outcome) (fun _ _ => False)
      (receiveHead arguments stream result headers) rest := by
  induction hn : kMaximumHttpHeaderBytes - headers.length using Nat.strong_induction_on
    generalizing headers result rest with
  | _ n ih =>
    subst hn
    have hroom := length_of_needMoreData hmore
    rw [receiveHead]
    apply guarded_peer_checkpoint
    rw [if_neg (by simp), if_neg (by omega)]
    apply Fallible.guarded_ask
    · trivial
    intro answer rest' hanswer
    cases answer with
    | none =>
        obtain ⟨rfl, rfl⟩ := hanswer
        refine Fallible.guarded_pure ?_
        have herror : parseHttpResponseHead headers = .error .needMoreData := by
          rw [parseHttpResponseHead_eq]
          split
          · next heq =>
              rw [heq] at hmore
              cases hmore
          · next heq =>
              rw [heq] at hmore
              exact congrArg _ hmore
        unfold Arrived
        rw [List.append_nil, herror]
        exact ⟨rfl, rfl⟩
    | some data =>
        have hdata := data.property
        have hrest : rest = data.val ++ rest' := hanswer
        rw [hrest, ← List.append_assoc]
        dsimp only
        apply guarded_peer_checkpoint
        rw [if_neg (by simp)]
        cases hparse : parseHttpResponseHead (headers ++ data.val) with
        | ok found =>
            have hstatus := parse_ok_status hparse
            refine Fallible.guarded_pure ?_
            unfold Arrived
            rw [parse_append rest' (by rw [hstatus]; nofun), hparse]
            exact ⟨rfl, rfl, rfl⟩
        | error e =>
            have hstatus := status_of_parse hparse
            by_cases he : e = .needMoreData
            · subst he
              have hshorter : kMaximumHttpHeaderBytes - (headers ++ data.val).length <
                  kMaximumHttpHeaderBytes - headers.length := by
                rw [List.length_append]
                omega
              refine Fallible.guarded_mono (ih _ hshorter hstatus rfl) ?_
              intro outcome _ h
              exact h
            · have hstable := parse_append rest' (by rw [hstatus]; exact he)
              rw [hparse] at hstable
              have harrived : Arrived (headers ++ data.val ++ rest') result
                  ({ result with headerStatus := e }, headers ++ data.val, none) := by
                unfold Arrived
                rw [hstable]
                split
                · next heq => cases heq
                · next heq => exact absurd (Except.error.inj heq) he
                · next heq =>
                    cases heq
                    exact ⟨rfl, rfl, rfl⟩
              split
              · next heq => cases heq
              · next heq => exact absurd (Except.error.inj heq) he
              · next heq =>
                  cases heq
                  exact Fallible.guarded_pure harrived

/-! ## Both together -/

theorem parseHeadInto_ok_iff (bytes : Bytes) :
    (parseHeadInto bytes).status = .ok ↔
      ∃ status code fields, HeadForm isTokenCharacter bytes status code fields ∧
        Supported fields := by
  rw [← parseHttpResponseHead_ok_iff]
  constructor
  · intro h
    rcases parseHeadInto_cases bytes with hstatus | hstatus | ⟨head, size, heq⟩
    · rw [h] at hstatus
      split at hstatus <;> cases hstatus
    · exact absurd h hstatus.1
    · rw [heq] at h
      refine ⟨head, size, ?_⟩
      rw [parseHttpResponseHead_eq, heq, show checkFraming head = .ok from h]
  · rintro ⟨head, size, h⟩
    exact parse_ok_status h

/-- No field name of the head holds a NUL. -/
def NulFree (bytes : Bytes) : Prop :=
  ∀ status code fields, HeadForm isTokenCharacter bytes status code fields →
    ∀ f ∈ fields, (0 : UInt8) ∉ f.name

theorem nulFree_of_not_mem {bytes : Bytes} (h : (0 : UInt8) ∉ bytes) : NulFree bytes := by
  intro status code fields hform f hf hzero
  refine h (hform.starts.subset ?_)
  have hline : (0 : UInt8) ∈ fieldLine f ++ crlf :=
    List.mem_append_left _ (by simp [fieldLine, hzero])
  exact List.mem_append_right _ (List.mem_append_left _ (List.mem_flatMap.mpr ⟨f, hf, hline⟩))

theorem isTokenCharacter_of_isTokenByte {c : UInt8} (h : isTokenByte c = true) :
    isTokenCharacter c = true := by
  rw [isTokenCharacter, h, Bool.true_or]

theorem isTokenByte_of_isTokenCharacter {c : UInt8} (h : isTokenCharacter c = true)
    (hc : c ≠ 0) : isTokenByte c = true := by
  rw [isTokenCharacter, Bool.or_eq_true, beq_iff_eq] at h
  exact h.resolve_right hc

/-- The form does not depend on the class of the bytes in the names where these are of both. -/
theorem HeadForm.of_names {nameByte nameByte' : UInt8 → Bool} {bytes status : Bytes} {code : Nat}
    {fields : List Field} (h : HeadForm nameByte bytes status code fields)
    (hnames : ∀ f ∈ fields, ∀ c ∈ f.name, nameByte c = true → nameByte' c = true) :
    HeadForm nameByte' bytes status code fields :=
  { h with names := fun f hf =>
      ⟨(h.names f hf).1, fun c hc => hnames f hf c hc ((h.names f hf).2 c hc)⟩ }

/-- How a head is split among the reads makes no difference, and a head is accepted if it has
the form and its fields are supported. -/
theorem parseHeadInto_exact (bytes : Bytes) :
    (∀ received, received <+: bytes → (parseHeadInto received).status ≠ .needMoreData →
      parseHeadInto bytes = parseHeadInto received) ∧
    (∀ arguments stream result,
      Fallible.Guarded peer (fun _ _ => True) (fun outcome _ => Arrived bytes result outcome)
        (fun _ _ => False) (receiveHead arguments stream result []) bytes) ∧
    (NulFree bytes →
      ((parseHeadInto bytes).status = .ok ↔
        ∃ status code fields, HeadForm isTokenByte bytes status code fields ∧
          Supported fields)) := by
  refine ⟨?_, ?_, ?_⟩
  · rintro received ⟨rest, rfl⟩ hstatus
    exact parseHeadInto_append rest hstatus
  · intro arguments stream result
    have hempty : (parseHeadInto []).status = .needMoreData := by decide
    exact arrives_receiveHead hempty
  · intro hfree
    rw [parseHeadInto_ok_iff]
    constructor
    · rintro ⟨status, code, fields, hform, hsupported⟩
      refine ⟨status, code, fields, hform.of_names ?_, hsupported⟩
      intro f hf c hc htoken
      refine isTokenByte_of_isTokenCharacter htoken ?_
      rintro rfl
      exact hfree status code fields hform f hf hc
    · rintro ⟨status, code, fields, hform, hsupported⟩
      refine ⟨status, code, fields, hform.of_names ?_, hsupported⟩
      exact fun _ _ _ _ => isTokenCharacter_of_isTokenByte

theorem parseHeadInto_exact_length : ∃ status code fields, HeadForm isTokenByte
    (headOf (bytesOf "HTTP/1.1 200 OK") [⟨bytesOf "Content-Length", bytesOf " 3"⟩]) status code
      fields ∧ Supported fields :=
  ((parseHeadInto_exact _).2.2 (nulFree_of_not_mem (by decide +kernel))).mp (by decide +kernel)

/-- A head of the form is refused for a field that the parser does not support. -/
theorem parseHeadInto_refuses_contentRange :
    (parseHeadInto (headOf (bytesOf "HTTP/1.1 204") [⟨bytesOf "Content-Range", []⟩])).status =
        .invalidHeader ∧
      ∃ status code fields, HeadForm isTokenByte
        (headOf (bytesOf "HTTP/1.1 204") [⟨bytesOf "Content-Range", []⟩]) status code fields := by
  constructor
  · decide +kernel
  · refine ⟨bytesOf "HTTP/1.1 204", 204, [⟨bytesOf "Content-Range", []⟩], ?_⟩
    have hstatus : StatusLine (bytesOf "HTTP/1.1 " ++ 0x32 :: 0x30 :: 0x34 :: []) 204 :=
      .mk (.inl rfl) (by decide +kernel) (by decide +kernel) (by decide +kernel) (.inl rfl) (by decide +kernel)
    exact
      { starts := List.prefix_refl _
        size := by decide +kernel
        status := hstatus
        names := by decide +kernel
        values := by decide +kernel
        once := by
          unfold AtMostOnce
          decide
        unambiguous := fun h => absurd h.1 (by
          unfold HasLength
          decide)
        framed := .inr (.inr (by decide +kernel))
        location := by decide }

end Https

end BmxUpdate
