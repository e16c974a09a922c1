import OmniDrive.Library.StatementProgram

/-!
# One program in two worlds

Two states may differ where a program does not look. If every statement finds the same in related
states and leaves related states, the two runs return the same.
-/

namespace StatementProgram.Prog

variable {S T ε α β γ : Type} {R : S → S → Prop} {Q : α → Prop}

/-- Every statement finds the same in related states and leaves related states, and what the program
returns satisfies `Q`. -/
def Alike (R : S → S → Prop) (Q : α → Prop) : Prog S ε α → Prop
  | ret a => Q a
  | fail _ => True
  | stmt upd next => ∀ s t, R s t → R (upd s) (upd t) ∧ next s = next t ∧ (next s).Alike R Q

theorem Alike.bind {Q' : β → Prop} {p : Prog S ε α} {f : α → Prog S ε β} (hp : p.Alike R Q)
    (hf : ∀ a, Q a → (f a).Alike R Q') : (p >>= f).Alike R Q' := by
  induction p with
  | ret a => exact hf a hp
  | fail e => trivial
  | stmt upd next ih =>
    intro s t h
    obtain ⟨hupd, hnext, hrest⟩ := hp s t h
    exact ⟨hupd, congrArg (fun p => p.bind f) hnext, ih s hrest⟩

theorem Alike.pure {a : α} (h : Q a) : (Pure.pure a : Prog S ε α).Alike R Q := h

/-- A query that finds the same in related states. -/
theorem Alike.query {f : S → α} (h : ∀ s t, R s t → f s = f t) :
    (Prog.query f : Prog S ε α).Alike R fun _ => True :=
  fun s t hst => ⟨hst, congrArg ret (h s t hst), trivial⟩

/-- What follows a query may rely on the state that the query found. -/
theorem Alike.query_bind {f : S → α} {k : α → Prog S ε β} {Q' : β → Prop}
    (h : ∀ s t, R s t → f s = f t ∧ (k (f s)).Alike R Q') :
    (Prog.query f >>= k).Alike R Q' :=
  fun s t hst => ⟨hst, congrArg k (h s t hst).1, (h s t hst).2⟩

theorem Alike.exec {upd : S → S} (h : ∀ s t, R s t → R (upd s) (upd t)) :
    (Prog.exec upd : Prog S ε Unit).Alike R fun _ => True :=
  fun s t hst => ⟨h s t hst, rfl, trivial⟩

theorem Alike.ofOption (e : ε) (o : Option α) :
    (Prog.ofOption e o : Prog S ε α).Alike R fun a => o = some a := by
  cases o with
  | none => trivial
  | some a => exact rfl

theorem Alike.ofExcept (x : Except ε α) :
    (Prog.ofExcept x : Prog S ε α).Alike R fun a => x = .ok a := by
  cases x with
  | error e => trivial
  | ok a => exact rfl

/-- What holds of what is returned may be weakened. -/
theorem Alike.mono {Q' : α → Prop} {p : Prog S ε α} (hp : p.Alike R Q) (h : ∀ a, Q a → Q' a) :
    p.Alike R Q' := by
  induction p with
  | ret a => exact h a hp
  | fail e => trivial
  | stmt upd next ih =>
    intro s t hst
    obtain ⟨hupd, hnext, hrest⟩ := hp s t hst
    exact ⟨hupd, hnext, ih s hrest⟩

theorem Alike.mapError {f : ε → γ} {p : Prog S ε α} (hp : p.Alike R Q) :
    (p.mapError f).Alike R Q := by
  induction p with
  | ret a => exact hp
  | fail e => trivial
  | stmt upd next ih =>
    intro s t hst
    obtain ⟨hupd, hnext, hrest⟩ := hp s t hst
    exact ⟨hupd, congrArg (Prog.mapError f) hnext, ih s hrest⟩

theorem Alike.attempt {p : Prog S ε α} (hp : p.Alike R Q) :
    (p.attempt : Prog S γ (Except ε α)).Alike R fun _ => True := by
  induction p with
  | ret a => trivial
  | fail e => trivial
  | stmt upd next ih =>
    intro s t hst
    obtain ⟨hupd, hnext, hrest⟩ := hp s t hst
    exact ⟨hupd, congrArg Prog.attempt hnext, ih s hrest⟩

/-- A program on a component that related states share. -/
theorem Alike.zoom {get : T → S} {set : S → T → T} {R : T → T → Prop}
    (hget : ∀ s t, R s t → get s = get t) (hset : ∀ a s t, R s t → R (set a s) (set a t))
    (p : Prog S ε α) : (p.zoom get set).Alike R fun _ => True := by
  induction p with
  | ret a => trivial
  | fail e => trivial
  | stmt upd next ih =>
    intro s t hst
    refine ⟨?_, ?_, ih (get s)⟩
    · dsimp only
      rw [hget s t hst]
      exact hset _ s t hst
    · dsimp only
      rw [hget s t hst]

/-- Runs in related states return the same and leave related states. -/
theorem Alike.run {p : Prog S ε α} (hp : p.Alike R Q) {s t : S} (h : R s t) :
    (p.run s).1 = (p.run t).1 ∧ R (p.run s).2 (p.run t).2 := by
  induction p generalizing s t with
  | ret a => exact ⟨rfl, h⟩
  | fail e => exact ⟨rfl, h⟩
  | stmt upd next ih =>
    obtain ⟨hupd, hnext, hrest⟩ := hp s t h
    have htail := ih s hrest hupd
    rwa [run_stmt, run_stmt, ← hnext]

end StatementProgram.Prog
