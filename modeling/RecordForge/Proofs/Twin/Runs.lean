import RecordForge.Proofs.Twin.Trails
import RecordForge.Proofs.Twin.Worlds

/-!
# Runs from twin worlds

From twins, one run *follows* another if the two end alike, leave twins again, and perform the same
bodies in the same order, with arguments that match (`Twins.Follows`). There is a *strict* form of this,
which holds however the first run ends, and a lax one, which holds if it succeeds.

The lemmas here are about the steps from which runs are made. All effects of bodies are among them.
-/

namespace RecordForge

open Run

/-! ## Frames and trails that match -/

/-- Two bodies may refer to the same, as far as it is not a carrier. -/
structure Frame.Matches (β : Pairing) (f f' : Frame) : Prop where
  this : f'.this = f.this
  declaring : f'.declaring = f.declaring
  args : Value.AllMatch β f.args f'.args
  info : f'.info = f.info

/-- One body is run, with arguments that match. -/
structure Performance.Matches (β : Pairing) (p q : Performance) : Prop where
  body : q.body = p.body
  frame : p.frame.Matches β q.frame

variable {β β' : Pairing}

theorem Frame.Matches.mono {f f' : Frame} (hβ : ∀ a b, β a b → β' a b) (h : f.Matches β f') :
    f.Matches β' f' := ⟨h.this, h.declaring, h.args.mono hβ, h.info⟩

/-- A body that is run on an object, with arguments. -/
theorem Frame.Matches.method (o : ObjectId) {vs us : List Value} (h : Value.AllMatch β vs us) :
    Frame.Matches β { this := some o, args := vs } { this := some o, args := us } :=
  ⟨rfl, rfl, h, rfl⟩

/-- A receiver that is run on an object. -/
theorem Frame.Matches.receiver (o : ObjectId) (i : PropertyInfo) :
    Frame.Matches β { this := some o, info := some i } { this := some o, info := some i } :=
  ⟨rfl, rfl, .nil, rfl⟩

theorem Performance.Matches.mono {p q : Performance} (hβ : ∀ a b, β a b → β' a b)
    (h : p.Matches β q) : p.Matches β' q := ⟨h.body, h.frame.mono hβ⟩

/-- Trails that match, body by body. -/
abbrev Performance.AllMatch (β : Pairing) : List Performance → List Performance → Prop :=
  List.Forall₂ (Performance.Matches β)

theorem Performance.AllMatch.append {ps qs ps' qs' : List Performance}
    (h : AllMatch β ps qs) (h' : AllMatch β ps' qs') : AllMatch β (ps ++ ps') (qs ++ qs') := by
  induction h with
  | nil => exact h'
  | cons hp _ ih => exact .cons hp ih

/-! ## Following -/

/-- A run, and the bodies that it performs. -/
structure Course (α : Type) where
  run : Run α
  bodies : World → List Performance

/-- A run that performs no bodies. -/
def Course.silent {α : Type} (x : Run α) : Course α := ⟨x, fun _ => []⟩

/-- Two runs end with results that are related, or they halt alike. -/
inductive Run.EndAlike {α β : Type} (R : α → β → Prop) : Except Halt α → Except Halt β → Prop
  | ok {a : α} {b : β} (h : R a b) : EndAlike R (.ok a) (.ok b)
  | error (e : Halt) : EndAlike R (.error e) (.error e)

theorem Run.EndAlike.imp {α β : Type} {R R' : α → β → Prop} {r : Except Halt α} {r' : Except Halt β}
    (h : EndAlike R r r') (hR : ∀ a b, R a b → R' a b) : EndAlike R' r r' := by
  cases h with
  | ok hab => exact .ok (hR _ _ hab)
  | error e => exact .error e

namespace Twins

variable {w₀ : World} {α β α' β' : Type} {T T' : Twins w₀} {strict : Prop}
variable {Q Q' : Twins w₀ → α → β → Prop} {R : Twins w₀ → α' → β' → Prop}

/-- From twins, the second run does what the first does, if that succeeds; in the strict form, in any
case. -/
def Follows (T : Twins w₀) (strict : Prop) (x : Course α) (y : Course β)
    (Q : Twins w₀ → α → β → Prop) : Prop :=
  (strict ∨ ∃ a, (x.run T.left).1 = .ok a) → ∃ T' : Twins w₀, T.Leads T' ∧
    (x.run T.left).2 = T'.left ∧ (y.run T.right).2 = T'.right ∧
    EndAlike (Q T') (x.run T.left).1 (y.run T.right).1 ∧
    Performance.AllMatch T'.paired (x.bodies T.left) (y.bodies T.right)

namespace Follows

variable {x : Course α} {y : Course β}

/-- The strict form implies the lax one. -/
theorem weaken (h : T.Follows True x y Q) : T.Follows strict x y Q := fun _ => h (.inl trivial)

theorem imp (h : T.Follows strict x y Q) (hQ : ∀ T' a b, T.Leads T' → Q T' a b → Q' T' a b) :
    T.Follows strict x y Q' := by
  intro hend
  obtain ⟨T', hl, hx, hy, hends, hbodies⟩ := h hend
  exact ⟨T', hl, hx, hy, hends.imp fun a b => hQ T' a b hl, hbodies⟩

/-- Two runs that succeed without performing bodies. -/
theorem of_ok {U : Twins w₀} {x : Run α} {y : Run β} {a : α} {b : β}
    (hx : x T.left = (.ok a, U.left)) (hy : y T.right = (.ok b, U.right)) (hl : T.Leads U)
    (hQ : Q U a b) :
    T.Follows strict (.silent x) (.silent y) Q := by
  intro _
  refine ⟨U, hl, congrArg Prod.snd hx, congrArg Prod.snd hy, ?_, .nil⟩
  show EndAlike _ (x T.left).1 (y T.right).1
  rw [hx, hy]
  exact .ok hQ

/-- Two runs that halt alike. -/
theorem of_error {x : Run α} {y : Run β} {e : Halt} (hx : x T.left = (.error e, T.left))
    (hy : y T.right = (.error e, T.right)) : T.Follows strict (.silent x) (.silent y) Q := by
  intro _
  refine ⟨T, .refl T, congrArg Prod.snd hx, congrArg Prod.snd hy, ?_, .nil⟩
  show EndAlike _ (x T.left).1 (y T.right).1
  rw [hx, hy]
  exact .error e

theorem pure {a : α} {b : β} (h : Q T a b) :
    T.Follows strict (.silent (Pure.pure a)) (.silent (Pure.pure b)) Q :=
  of_ok rfl rfl (.refl T) h

theorem halt (e : Halt) : T.Follows strict (.silent (Run.halt e)) (.silent (Run.halt e)) Q :=
  of_error rfl rfl

theorem fail (e : Fault) : T.Follows strict (.silent (Run.fail e)) (.silent (Run.fail e)) Q :=
  of_error rfl rfl

/-- One thing after the other. -/
theorem bind {x : Run α} {y : Run β} {f : α → Run α'} {g : β → Run β'} {p q : World → List Performance}
    {pf : α → World → List Performance} {qg : β → World → List Performance}
    (h : T.Follows strict ⟨x, p⟩ ⟨y, q⟩ Q)
    (hf : ∀ T' a b, T.Leads T' → Q T' a b → T'.Follows strict ⟨f a, pf a⟩ ⟨g b, qg b⟩ R) :
    T.Follows strict ⟨x >>= f, fun w => p w ++ following x pf w⟩
      ⟨y >>= g, fun w => q w ++ following y qg w⟩ R := by
  intro hend
  dsimp only at hend ⊢
  have hfirst : strict ∨ ∃ a, (x T.left).1 = .ok a := by
    refine hend.imp_right fun ⟨b, hb⟩ => ?_
    obtain ⟨a, w', ha, -⟩ := bind_eq_ok_iff.mp (Prod.ext hb rfl)
    exact ⟨a, congrArg Prod.fst ha⟩
  obtain ⟨T₁, hl₁, hx, hy, hends, hbodies⟩ := h hfirst
  -- the two parts have ended alike, so it is known how both go on
  rcases hxr : x T.left with ⟨r, w⟩
  rcases hyr : y T.right with ⟨r', w'⟩
  simp only [hxr, hyr] at hx hy hends
  subst hx hy
  cases hends with
  | error e =>
    have hxe : (x >>= f) T.left = (.error e, T₁.left) := bind_of_error hxr
    have hye : (y >>= g) T.right = (.error e, T₁.right) := bind_of_error hyr
    rw [hxe, hye]
    refine ⟨T₁, hl₁, rfl, rfl, .error e, ?_⟩
    simp only [following, hxr, hyr, List.append_nil]
    exact hbodies
  | @ok a b hab =>
    have hxb : (x >>= f) T.left = f a T₁.left := bind_of_ok hxr
    have hyb : (y >>= g) T.right = g b T₁.right := bind_of_ok hyr
    rw [hxb] at hend
    obtain ⟨T₂, hl₂, hx₂, hy₂, hends₂, hbodies₂⟩ := hf T₁ a b hl₁ hab hend
    rw [hxb, hyb, following_of_ok hxr, following_of_ok hyr]
    exact ⟨T₂, hl₁.trans hl₂, hx₂, hy₂, hends₂,
      Performance.AllMatch.append (hbodies.imp fun _ _ h => h.mono hl₂.paired) hbodies₂⟩

/-- What performs no bodies comes first. -/
theorem after {x : Run α} {y : Run β} {f : α → Run α'} {g : β → Run β'}
    {pf : α → World → List Performance} {qg : β → World → List Performance}
    (h : T.Follows strict (.silent x) (.silent y) Q)
    (hf : ∀ T' a b, T.Leads T' → Q T' a b → T'.Follows strict ⟨f a, pf a⟩ ⟨g b, qg b⟩ R) :
    T.Follows strict ⟨x >>= f, following x pf⟩ ⟨y >>= g, following y qg⟩ R := bind h hf

theorem following_nil {x : Run α} (w : World) :
    following x (fun _ _ => ([] : List Performance)) w = [] := by
  rw [following]
  split <;> rfl

/-- What performs no bodies comes last. -/
theorem before {x : Run α} {y : Run β} {f : α → Run α'} {g : β → Run β'}
    {p q : World → List Performance} (h : T.Follows strict ⟨x, p⟩ ⟨y, q⟩ Q)
    (hf : ∀ T' a b, T.Leads T' → Q T' a b → T'.Follows strict (.silent (f a)) (.silent (g b)) R) :
    T.Follows strict ⟨x >>= f, p⟩ ⟨y >>= g, q⟩ R := by
  have hbind : T.Follows strict ⟨x >>= f, fun w => p w ++ following x (fun _ _ => []) w⟩
      ⟨y >>= g, fun w => q w ++ following y (fun _ _ => []) w⟩ R := bind h hf
  simp only [following_nil, List.append_nil] at hbind
  exact hbind

theorem silent {x : Run α} {y : Run β} {f : α → Run α'} {g : β → Run β'}
    (h : T.Follows strict (.silent x) (.silent y) Q)
    (hf : ∀ T' a b, T.Leads T' → Q T' a b → T'.Follows strict (.silent (f a)) (.silent (g b)) R) :
    T.Follows strict (.silent (x >>= f)) (.silent (y >>= g)) R := before h hf

theorem map {x : Run α} {y : Run β} {f : α → α'} {g : β → β'} {p q : World → List Performance}
    (h : T.Follows strict ⟨x, p⟩ ⟨y, q⟩ Q) (hQ : ∀ T' a b, T.Leads T' → Q T' a b → R T' (f a) (g b)) :
    T.Follows strict ⟨f <$> x, p⟩ ⟨g <$> y, q⟩ R :=
  before h fun T' a b hl hab => pure (hQ T' a b hl hab)

/-- A result of no importance. -/
theorem discard {x : Run α} {y : Run β} {p q : World → List Performance}
    (h : T.Follows strict ⟨x, p⟩ ⟨y, q⟩ Q) :
    T.Follows strict ⟨discard x, p⟩ ⟨discard y, q⟩ fun _ a b => a = b :=
  map h fun _ _ _ _ _ => rfl

/-- A body is run. -/
theorem perform {x : Run α} {y : Run β} {p q : World → List Performance} {f f' : Frame} (r : Routine)
    (hf : f.Matches T.paired f') (h : T.Follows strict ⟨x, p⟩ ⟨y, q⟩ Q) :
    T.Follows strict ⟨x, fun w => ⟨f, r⟩ :: p w⟩ ⟨y, fun w => ⟨f', r⟩ :: q w⟩ Q := by
  intro hend
  obtain ⟨T', hl, hx, hy, hends, hbodies⟩ := h hend
  exact ⟨T', hl, hx, hy, hends, .cons ⟨rfl, hf.mono hl.paired⟩ hbodies⟩

/-- What the second run does first on its own. -/
theorem right {U : Twins w₀} {x : Course α} {y : Run β'} {b : β'} {g : β' → Run β}
    {qg : β' → World → List Performance} (hy : y T.right = (.ok b, U.right)) (hleft : U.left = T.left)
    (hl : T.Leads U) (h : U.Follows strict x ⟨g b, qg b⟩ Q) :
    T.Follows strict x ⟨y >>= g, following y qg⟩ Q := by
  intro hend
  rw [← hleft] at hend
  obtain ⟨T₁, hl₁, hx, hy₁, hends, hbodies⟩ := h hend
  have hyb : (y >>= g) T.right = g b U.right := bind_of_ok hy
  dsimp only at hy₁ hends hbodies ⊢
  rw [hyb, following_of_ok hy, ← hleft]
  exact ⟨T₁, hl.trans hl₁, hx, hy₁, hends, hbodies⟩

/-- What is known of a result of the second run besides. -/
theorem also {x : Course α} {y : Course β} {P : World → β → Prop} (h : T.Follows strict x y Q)
    (hP : ∀ b w, y.run T.right = (.ok b, w) → P w b) :
    T.Follows strict x y fun T' a b => Q T' a b ∧ P T'.right b := by
  intro hend
  obtain ⟨T', hl, hx, hy, hends, hbodies⟩ := h hend
  refine ⟨T', hl, hx, hy, ?_, hbodies⟩
  generalize hr : (x.run T.left).1 = r at hends
  generalize hr' : (y.run T.right).1 = r' at hends
  cases hends with
  | ok hab => exact .ok ⟨hab, hP _ _ (Prod.ext hr' hy)⟩
  | error e => exact .error e

/-! ### Questions and changes -/

theorem ask {q : World → α} {r : World → β} (h : Q T (q T.left) (r T.right)) :
    T.Follows strict (.silent (Run.ask q)) (.silent (Run.ask r)) Q :=
  of_ok rfl rfl (.refl T) h

theorem check {q : World → Except Fault α} {r : World → Except Fault β}
    (h : (∃ e, q T.left = .error e ∧ r T.right = .error e) ∨
      ∃ a b, q T.left = .ok a ∧ r T.right = .ok b ∧ Q T a b) :
    T.Follows strict (.silent (Run.check q)) (.silent (Run.check r)) Q := by
  rcases h with ⟨e, hq, hr⟩ | ⟨a, b, hq, hr, hQ⟩
  · exact of_error (by rw [check_run, hq]) (by rw [check_run, hr])
  · exact of_ok (check_of_ok hq) (check_of_ok hr) (.refl T) hQ

/-- A check that comes to the same in both worlds. -/
theorem check_eq {Q : Twins w₀ → α → α → Prop} {q r : World → Except Fault α}
    (h : r T.right = q T.left) (hQ : ∀ a, q T.left = .ok a → Q T a a) :
    T.Follows strict (.silent (Run.check q)) (.silent (Run.check r)) Q := by
  refine check ?_
  cases hq : q T.left with
  | error e => exact .inl ⟨e, rfl, h.trans hq⟩
  | ok a => exact .inr ⟨a, a, rfl, h.trans hq, hQ a hq⟩

theorem change {q r : World → Except Fault World} {Q : Twins w₀ → Unit → Unit → Prop}
    (h : (∃ e, q T.left = .error e ∧ r T.right = .error e) ∨
      ∃ T' : Twins w₀, q T.left = .ok T'.left ∧ r T.right = .ok T'.right ∧ T.Leads T' ∧ Q T' () ()) :
    T.Follows strict (.silent (Run.change q)) (.silent (Run.change r)) Q := by
  rcases h with ⟨e, hq, hr⟩ | ⟨T', hq, hr, hl, hQ⟩
  · exact of_error (by rw [change_run, hq]) (by rw [change_run, hr])
  · exact of_ok (change_of_ok hq) (change_of_ok hr) hl hQ

/-- How two runs have ended, as values. -/
theorem outcome {x : Run α} {y : Run β} {p q : World → List Performance}
    (h : T.Follows True ⟨x, p⟩ ⟨y, q⟩ Q) :
    T.Follows strict ⟨Run.outcome x, p⟩ ⟨Run.outcome y, q⟩ fun T' => EndAlike (Q T') := by
  intro _
  obtain ⟨T', hl, hx, hy, hends, hbodies⟩ := h (.inl trivial)
  exact ⟨T', hl, hx, hy, .ok hends, hbodies⟩

end Follows

end Twins

end RecordForge
