import OmniDrive.Library.StatementProgram

/-!
# What a program guarantees from a state

`Keeps` and `Yields` speak about every state that satisfies an invariant. A program may rely on more
than the invariant once it has written something itself. Its guarantee then starts from one state
and carries what the program has established along with what it returns.
-/

namespace StatementProgram.Prog

variable {S T ε α β γ : Type} {I J : S → Prop} {s : S}

/-- From this state, every statement of the program establishes `I`, and a return satisfies `Q`. -/
def Ensures (I : S → Prop) (Q : α → S → Prop) : Prog S ε α → S → Prop
  | ret a, s => Q a s
  | fail _, _ => True
  | stmt upd next, s => I (upd s) ∧ (next s).Ensures I Q (upd s)

/-- Less may be said about the statements and about what is returned. -/
theorem Ensures.mono {Q R : α → S → Prop} {p : Prog S ε α} (hp : p.Ensures I Q s)
    (hIJ : ∀ t, I t → J t) (hQR : ∀ a t, Q a t → R a t) : p.Ensures J R s := by
  induction p generalizing s with
  | ret a => exact hQR a s hp
  | fail e => trivial
  | stmt upd next ih => exact ⟨hIJ _ hp.1, ih s hp.2⟩

/-- What follows a program may rely on the state that the program leaves. -/
theorem Ensures.bind {Q : α → S → Prop} {R : β → S → Prop} {p : Prog S ε α}
    {f : α → Prog S ε β} (hp : p.Ensures I Q s) (hf : ∀ a t, Q a t → (f a).Ensures I R t) :
    (p >>= f).Ensures I R s := by
  induction p generalizing s with
  | ret a => exact hf a s hp
  | fail e => trivial
  | stmt upd next ih => exact ⟨hp.1, ih s hp.2⟩

/-- What holds of every state holds of this one, and of the state behind the program. -/
theorem Yields.ensures {Q : α → Prop} {p : Prog S ε α} (hp : p.Yields I Q) (hs : I s) :
    p.Ensures I (fun a t => I t ∧ Q a) s := by
  induction p generalizing s with
  | ret a => exact ⟨hs, hp⟩
  | fail e => trivial
  | stmt upd next ih => exact ⟨(hp s hs).1, ih s (hp s hs).2 (hp s hs).1⟩

theorem Keeps.ensures {p : Prog S ε α} (hp : p.Keeps I) (hs : I s) :
    p.Ensures I (fun _ t => I t) s :=
  (hp.yields.ensures hs).mono (fun _ ht => ht) fun _ _ ht => ht.1

/-- A program that is sure of its guarantee in every state that satisfies `I` may be started there
by another. -/
theorem Yields.bind_ensures {Q : α → Prop} {R : β → S → Prop} {p : Prog S ε α}
    {f : α → Prog S ε β} (hp : p.Yields I Q) (hs : I s)
    (hf : ∀ a t, I t → Q a → (f a).Ensures I R t) : (p >>= f).Ensures I R s :=
  (hp.ensures hs).bind fun a t ht => hf a t ht.1 ht.2

theorem Keeps.bind_ensures {R : β → S → Prop} {p : Prog S ε α} {f : α → Prog S ε β}
    (hp : p.Keeps I) (hs : I s) (hf : ∀ a t, I t → (f a).Ensures I R t) :
    (p >>= f).Ensures I R s :=
  (hp.ensures hs).bind hf

/-- A program that only reads may be run before the guarantee starts. -/
theorem Fixes.bind_ensures {R : β → S → Prop} {p : Prog S ε α} {f : α → Prog S ε β}
    (hp : p.Fixes id) (hs : I s) {a : α} {t : S} (hrun : p.run s = (.ok a, t))
    (hf : (f a).Ensures I R s) : (p >>= f).Ensures I R s := by
  induction p generalizing s with
  | ret b =>
    obtain rfl : b = a := by simpa using congrArg (·.1) hrun
    exact hf
  | fail e => simp at hrun
  | stmt upd next ih =>
    have hread : upd s = s := (hp s).1
    rw [run_stmt, hread] at hrun
    have hrest := ih s (hp s).2 hs hrun hf
    refine ⟨?_, ?_⟩
    · rw [hread]
      exact hs
    · rw [hread]
      exact hrest

theorem Ensures.query_bind {R : β → S → Prop} {g : S → α} {f : α → Prog S ε β} (hs : I s)
    (hf : (f (g s)).Ensures I R s) : (Prog.query g >>= f).Ensures I R s := ⟨hs, hf⟩

theorem Ensures.exec_bind {R : β → S → Prop} {upd : S → S} {f : Unit → Prog S ε β}
    (hupd : I (upd s)) (hf : (f ()).Ensures I R (upd s)) :
    (Prog.exec upd >>= f).Ensures I R s := ⟨hupd, hf⟩

theorem Ensures.exec {Q : Unit → S → Prop} {upd : S → S} (hupd : I (upd s)) (hQ : Q () (upd s)) :
    (Prog.exec upd : Prog S ε Unit).Ensures I Q s := ⟨hupd, hQ⟩

theorem Ensures.ofOption_bind {R : β → S → Prop} {e : ε} {o : Option α} {f : α → Prog S ε β}
    (hf : ∀ a, o = some a → (f a).Ensures I R s) : (Prog.ofOption e o >>= f).Ensures I R s := by
  cases o with
  | none => trivial
  | some a => exact hf a rfl

theorem Ensures.ofExcept_bind {R : β → S → Prop} {x : Except ε α} {f : α → Prog S ε β}
    (hf : ∀ a, x = .ok a → (f a).Ensures I R s) : (Prog.ofExcept x >>= f).Ensures I R s := by
  cases x with
  | error e => trivial
  | ok a => exact hf a rfl

/-- An inspected program still guarantees its statements. -/
theorem Ensures.attempt {Q : α → S → Prop} {p : Prog S ε α} (hp : p.Ensures I Q s)
    (hs : I s) : (p.attempt : Prog S γ (Except ε α)).Ensures I (fun _ t => I t) s := by
  induction p generalizing s with
  | ret a => exact hs
  | fail e => exact hs
  | stmt upd next ih => exact ⟨hp.1, ih s hp.2 hp.1⟩

theorem Ensures.mapError {Q : α → S → Prop} {g : ε → γ} {p : Prog S ε α}
    (hp : p.Ensures I Q s) : (p.mapError g).Ensures I Q s := by
  induction p generalizing s with
  | ret a => exact hp
  | fail e => trivial
  | stmt upd next ih => exact ⟨hp.1, ih s hp.2⟩

/-- A program on a component guarantees what it guarantees of the component. -/
theorem Ensures.zoom {get : T → S} {set : S → T → T} (hget : ∀ s t, get (set s t) = s)
    {Q : α → S → Prop} {p : Prog S ε α} {t : T} (hp : p.Ensures I Q (get t)) :
    (p.zoom get set).Ensures (fun t => I (get t)) (fun a t => Q a (get t)) t := by
  induction p generalizing t with
  | ret a => exact hp
  | fail e => trivial
  | stmt upd next ih =>
    have hcomponent : get (set (upd (get t)) t) = upd (get t) := hget _ t
    refine ⟨?_, ih (get t) ?_⟩
    · show I (get (set (upd (get t)) t))
      rw [hcomponent]
      exact hp.1
    · rw [hcomponent]
      exact hp.2

/-- A run that returns satisfies the guarantee of its return. -/
theorem Ensures.run {Q : α → S → Prop} {p : Prog S ε α} {t : S} {a : α} (hp : p.Ensures I Q s)
    (hrun : p.run s = (.ok a, t)) : Q a t := by
  induction p generalizing s with
  | ret b =>
    cases hrun
    exact hp
  | fail e => cases hrun
  | stmt upd next ih => exact ih s hp.2 hrun

/-- What every statement establishes holds at every cut point. -/
theorem Ensures.cut {Q : α → S → Prop} {p : Prog S ε α} (hp : p.Ensures I Q s) (hs : I s)
    (n : ℕ) : I (p.cut n s) := by
  induction p generalizing s n with
  | ret a => rwa [cut_ret]
  | fail e => rwa [cut_fail]
  | stmt upd next ih =>
    cases n with
    | zero => rwa [cut_zero]
    | succ n => exact ih s hp.2 hp.1 n

end StatementProgram.Prog
