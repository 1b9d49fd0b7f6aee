import BmxUpdate.Library.Wire

/-!
# Self-delimiting codes

A code is self-delimiting when two encodings that begin one text are the same, whatever
follows them: nothing can move from one field into the next.  Fields of one length
are, texts behind their length are, and so are pairs and lists of a known length of
what is.
-/

namespace Wire

variable {α β : Type}

/-- Where two values that satisfy `P` are encoded at the start of one text, they are the
same and so is what follows. -/
def SelfDelimiting (P : α → Prop) (encode : α → Bytes) : Prop :=
  ∀ ⦃a b : α⦄ ⦃s t : Bytes⦄, P a → P b → encode a ++ s = encode b ++ t → a = b ∧ s = t

/-- One code after another. -/
theorem SelfDelimiting.pair {P : α → Prop} {Q : β → Prop} {encodeA : α → Bytes}
    {encodeB : β → Bytes} (hA : SelfDelimiting P encodeA) (hB : SelfDelimiting Q encodeB) :
    SelfDelimiting (fun x : α × β => P x.1 ∧ Q x.2)
      fun x : α × β => encodeA x.1 ++ encodeB x.2 := by
  rintro ⟨a₁, b₁⟩ ⟨a₂, b₂⟩ s t ⟨ha₁, hb₁⟩ ⟨ha₂, hb₂⟩ heq
  dsimp only at heq
  rw [List.append_assoc, List.append_assoc] at heq
  obtain ⟨hfirst, hrest⟩ := hA ha₁ ha₂ heq
  obtain ⟨hsecond, htail⟩ := hB hb₁ hb₂ hrest
  exact ⟨Prod.ext hfirst hsecond, htail⟩

/-- Lists of one length, each element encoded after the one before. -/
theorem SelfDelimiting.flatMap {P : α → Prop} {encode : α → Bytes}
    (h : SelfDelimiting P encode) :
    ∀ (left right : List α) {s t : Bytes}, left.length = right.length →
      (∀ a ∈ left, P a) → (∀ b ∈ right, P b) →
      left.flatMap encode ++ s = right.flatMap encode ++ t → left = right ∧ s = t
  | [], [], _, _, _, _, _, heq => ⟨rfl, heq⟩
  | a :: left, b :: right, s, t, hlength, hleft, hright, heq => by
      simp only [List.flatMap_cons, List.append_assoc] at heq
      obtain ⟨hhead, htail⟩ := h (hleft a (by simp)) (hright b (by simp)) heq
      obtain ⟨hrest, hst⟩ := h.flatMap left right (by simpa using hlength)
        (fun x hx => hleft x (List.mem_cons_of_mem a hx))
        (fun x hx => hright x (List.mem_cons_of_mem b hx)) htail
      exact ⟨by rw [hhead, hrest], hst⟩

theorem encodeBe_injOn {n v w : Nat} (hv : v < 256 ^ n) (hw : w < 256 ^ n)
    (h : encodeBe n v = encodeBe n w) : v = w := by
  have hdecode := congrArg decodeBe h
  rwa [decodeBe_encodeBe hv, decodeBe_encodeBe hw] at hdecode

theorem encodeLe_injOn {n v w : Nat} (hv : v < 256 ^ n) (hw : w < 256 ^ n)
    (h : encodeLe n v = encodeLe n w) : v = w := by
  have hdecode := congrArg decodeLe h
  rwa [decodeLe_encodeLe hv, decodeLe_encodeLe hw] at hdecode

/-- A text behind its length, as long as the length fits its field. -/
theorem selfDelimiting_lengthFirst (n : Nat) :
    SelfDelimiting (fun text : Bytes => text.length < 256 ^ n)
      fun text => encodeBe n text.length ++ text := by
  intro a b s t ha hb heq
  dsimp only at ha hb heq
  rw [List.append_assoc, List.append_assoc] at heq
  obtain ⟨hcount, hrest⟩ := List.append_inj heq (by simp)
  exact List.append_inj hrest (encodeBe_injOn ha hb hcount)

end Wire
