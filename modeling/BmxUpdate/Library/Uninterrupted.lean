import BmxUpdate.Library.Crash

/-!
# Runs without faults

How a program over a disk ends when no operation fails or is cut: with a value or
with an error of its own.

* `Ends m s d r w`: from the private state `s` and the disk `d`, `m` ends with `r` on
  the disk `w`, and leaves `s` as it is.
* One rule for each way to build a program.
-/

namespace Crash

variable {ε η σ δ α β : Type} {s : σ} {d w : δ} {m : Proc ε σ δ α}

/-- Without faults `m` ends with `r` on the disk `w`. -/
def Ends (m : Proc ε σ δ α) (s : σ) (d : δ) (r : Except ε α) (w : δ) : Prop :=
  m s ⟨d, []⟩ =
    match r with
    | .ok a => .done a s ⟨w, []⟩
    | .error e => .error e s ⟨w, []⟩

namespace Ends

theorem pure (a : α) : Ends (Pure.pure a : Proc ε σ δ α) s d (.ok a) d := rfl

theorem throw (e : ε) : Ends (Proc.throw e : Proc ε σ δ α) s d (.error e) d := rfl

theorem check {p : Prop} [Decidable p] {e : ε} (hp : p) :
    Ends (Proc.check p e) s d (.ok ()) d := by
  unfold Ends Proc.check
  rw [if_pos hp]
  rfl

theorem check_error {p : Prop} [Decidable p] {e : ε} (hp : ¬p) :
    Ends (Proc.check p e) s d (.error e) d := by
  unfold Ends Proc.check
  rw [if_neg hp]
  rfl

theorem bind {k : α → Proc ε σ δ β} {a : α} {r : Except ε β} {v : δ}
    (hm : Ends m s d (.ok a) v) (hk : Ends (k a) s v r w) : Ends (m >>= k) s d r w := by
  show Proc.bind m k s ⟨d, []⟩ = _
  unfold Proc.bind
  rw [hm]
  exact hk

theorem bind_error {k : α → Proc ε σ δ β} {e : ε} (hm : Ends m s d (.error e) w) :
    Ends (m >>= k) s d (.error e) w := by
  show Proc.bind m k s ⟨d, []⟩ = _
  unfold Proc.bind
  rw [hm]

theorem orElse {e : η} {a : α} (hm : Ends m s d (.ok a) w) :
    Ends (Proc.orElse e m) s d (.ok a) w := by
  unfold Ends Proc.orElse Proc.mapError
  rw [hm]

theorem observe {f : δ → Option α} {a : α} (hf : f d = some a) :
    Ends (Proc.observe f : Proc Unit σ δ α) s d (.ok a) d := by
  unfold Ends Proc.observe Proc.act
  dsimp only
  rw [hf]
  rfl

end Ends

end Crash
