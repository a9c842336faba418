import RecordForge.Proofs.Synthesis.Derivable
import RecordForge.Proofs.Synthesis.Report

/-!
# The search with memory

A registry remembers what it has made, so a request meets types that are known already. It answers
all the same as the search without memory: `find_answers`. The reason is an invariant of sessions,
`Session.Tracks`: what a session knows is derivable, and its descriptor is the one that would be
made again. Only its report need not end by now, if it was made before (`Session.Recalls`).

Each function of the search has one lemma here. It relates the result to the verdict
(`Answers`), and says of a result that is not refused how the session has grown (`Session.Grows`).
-/

namespace RecordForge

/-! ## Results and verdicts -/

/-- A result goes with a verdict: both refuse for one reason, or neither does and the result has a
property. -/
inductive Answers {α : Type} (v : Except RequestError Unit) (P : α → Prop) :
    Except RequestError α → Prop
  | refused {e : RequestError} (h : v = .error e) : Answers v P (.error e)
  | answered {a : α} (h : v = .ok ()) (ha : P a) : Answers v P (.ok a)

namespace Answers

variable {α β : Type} {v v' : Except RequestError Unit} {x : Except RequestError α}
variable {P : α → Prop} {Q : β → Prop}

theorem bind {f : α → Except RequestError β} (hx : Answers v P x)
    (hf : v = .ok () → ∀ a, P a → Answers v' Q (f a)) : Answers (v >>= fun _ => v') Q (x >>= f) := by
  cases hx with
  | refused h => rw [h]; exact .refused rfl
  | answered h ha => rw [h]; exact hf h _ ha

/-- A step that is a step of the verdict too. -/
theorem step {f : α → Except RequestError β} {g : α → Except RequestError Unit}
    (hf : ∀ a, x = .ok a → Answers (g a) Q (f a)) : Answers (x >>= g) Q (x >>= f) := by
  cases x with
  | error e => exact .refused rfl
  | ok a => exact hf a rfl

/-- The last step of a verdict, followed by a result. -/
theorem last {f : α → β} (hf : ∀ a, x = .ok a → Q (f a)) :
    Answers (x.map fun _ => ()) Q (x >>= fun a => .ok (f a)) := by
  cases x with
  | error e => exact .refused rfl
  | ok a => exact .answered rfl (hf a rfl)

/-- Steps that never fail. -/
theorem followed {f : α → Except RequestError β} (hx : Answers v P x)
    (hf : v = .ok () → ∀ a, P a → ∃ b, f a = .ok b ∧ Q b) : Answers v Q (x >>= f) := by
  cases hx with
  | refused h => exact .refused h
  | answered h ha =>
    obtain ⟨b, hb, hQ⟩ := hf h _ ha
    show Answers v Q (f _)
    rw [hb]
    exact .answered h hQ

theorem imp {Q : α → Prop} (hx : Answers v P x) (h : ∀ a, P a → Q a) : Answers v Q x := by
  cases hx with
  | refused hv => exact .refused hv
  | answered hv ha => exact .answered hv (h _ ha)

/-- There is no result where the verdict refuses. -/
theorem eq_error {e : RequestError} (hx : Answers v P x) (hv : v = .error e) : x = .error e := by
  cases hx with
  | refused h => exact congrArg Except.error (Except.error.inj (h.symm.trans hv))
  | answered h => cases h.symm.trans hv

/-- There is a result exactly if the verdict does not refuse. -/
theorem isOk_iff (hx : Answers v P x) : (∃ a, x = .ok a) ↔ v = .ok () := by
  cases hx with
  | refused h => simp [h]
  | answered h => simp [h]

end Answers

/-! ## What a session knows -/

/-- What a class needs comes before it. -/
def Provider.Founded (p : Provider) (S : Schema) (entries : List (Ty × DescriptorId)) : Prop :=
  ∀ before t d after, entries = before ++ (t, d) :: after →
    ∀ F, p.Needs S t F → F ∈ before.map Prod.fst

/-- Everything that a session knows is derivable over the schema at the beginning, and is known by a
descriptor that serves it. The heap was an earlier one of `H` when the descriptor was made. No type
has two entries, and what a class needs was finished before it. -/
structure Session.Tracks (w : Workshop) (H : Heap → Prop) (S : Schema)
    (cache : List (Ty × DescriptorId)) (s : Session) : Prop where
  schema : S.Extends s.schema
  closed : s.schema.Closed
  distinct : ((cache ++ s.staged).map Prod.fst).Nodup
  founded : w.provider.Founded S (cache ++ s.staged)
  serves : ∀ {t d}, s.known? cache t = some d →
    ∃ x h, s.descriptors[d]? = some x ∧ H h ∧ x.Serves { w with heap := h } S cache s t
  derivable : ∀ {t d}, s.known? cache t = some d → w.provider.Derivable w.heap S t

/-- A class is the implementation of an earlier, abstract one that has a known descriptor. Its plans
build instances of earlier classes only, and so do those descriptors that its lookups stand for. -/
structure Session.Makes (w : Workshop) (S : Schema) (cache : List (Ty × DescriptorId)) (s : Session)
    (c : ClassId) (d : ClassDecl) : Prop where
  concrete : d.isAbstract = false
  below : d.BuildsBelow c
  known : ∃ b e x, b < c ∧ S.isAbstract (.cls b) = true ∧ s.known? cache (.cls b) = some e ∧
    s.descriptors[e]? = some x ∧ x.product = .cls c ∧
    ∀ F, w.provider.Needs S (.cls b) F → ∃ e' x' k, s.known? cache F = some e' ∧
      s.descriptors[e']? = some x' ∧ x'.product = .cls k ∧ k < c

/-- A session has grown. It goes on tracking what it knows, it has learnt of no type in flight, all
new classes are implementations, no new lookup has found anything, and the implementations of new types
have been reported. -/
structure Session.Grows (w : Workshop) (H : Heap → Prop) (S : Schema)
    (cache : List (Ty × DescriptorId)) (inFlight : List Ty) (s s' : Session) : Prop where
  extends' : Session.Extends cache cache s s'
  tracks : s'.Tracks w H S cache
  unknown : ∀ u ∈ inFlight, s.known? cache u = none → s'.known? cache u = none
  made : ∀ {c d}, s'.schema.class? c = some d →
    s.schema.class? c = some d ∨ s'.Makes w S cache c d
  found : ∀ {l : LookupId} {x : Lookup} {d}, s'.lookups[l]? = some x → x.found = some d →
    s.lookups[l]? = some x
  reported : ∀ {t d}, s'.known? cache t = some d → S.isAbstract t = true →
    s.known? cache t = some d ∨ w.provider.Reports w.heap S t

/-- A session knows what was `known` before it, and the implementations of all other types that it knows
can be reported. -/
structure Session.Recalls (w : Workshop) (S : Schema) (cache : List (Ty × DescriptorId))
    (known : Ty → Bool) (s : Session) : Prop where
  knows : ∀ {t}, known t = true → ∃ d, s.known? cache t = some d
  reports : ∀ {t d}, s.known? cache t = some d → S.isAbstract t = true →
    known t = true ∨ w.provider.Reports w.heap S t

variable {w : Workshop} {H : Heap → Prop} {S : Schema} {cache : List (Ty × DescriptorId)}
variable {inFlight : List Ty} {s s' s'' : Session} {t : Ty}

namespace Provider

variable {p : Provider} {entries : List (Ty × DescriptorId)} {d : DescriptorId}

theorem Founded.of_append {more : List (Ty × DescriptorId)} (h : p.Founded S (entries ++ more)) :
    p.Founded S entries := by
  intro before t d after he F hF
  exact h before t d (after ++ more) (by rw [he, List.append_assoc, List.cons_append]) F hF

theorem Founded.concat (h : p.Founded S entries)
    (hn : ∀ F, p.Needs S t F → F ∈ entries.map Prod.fst) :
    p.Founded S (entries ++ [(t, d)]) := by
  intro before u e after he F hF
  rcases List.append_eq_append_iff.mp he with ⟨rest, hbefore, hlast⟩ | ⟨rest, hentries, hlast⟩
  · -- the split is at the new entry
    cases rest with
    | nil =>
      obtain ⟨hentry, -⟩ := List.cons.inj hlast
      obtain rfl : t = u := (Prod.mk.inj hentry).1
      rw [hbefore, List.append_nil]
      exact hn F hF
    | cons entry rest => simp at hlast
  · cases rest with
    | nil =>
      obtain ⟨hentry, -⟩ := List.cons.inj hlast
      obtain rfl : u = t := (Prod.mk.inj hentry).1
      rw [hentries, List.append_nil] at hn
      exact hn F hF
    | cons entry rest =>
      obtain ⟨rfl, -⟩ := List.cons.inj hlast
      exact h before u e rest hentries F hF

theorem Founded.rebase (h : p.Founded S entries) {S' : Schema} (hs : S.Extends S') (hS : S.Closed)
    (hp : p.Within S) (hd : ∀ u ∈ entries.map Prod.fst, S.Declares u) :
    p.Founded S' entries := by
  intro before u e after he F hF
  have hu : u ∈ entries.map Prod.fst := by rw [he]; simp
  exact h before u e after he F (Needs.rebase hs hS hp (hd u hu) hF)

end Provider

namespace Session

/-- A type is known exactly if it has an entry. -/
theorem known?_isSome_iff :
    (s.known? cache t).isSome ↔ t ∈ (cache ++ s.staged).map Prod.fst := by
  rw [known?, ← List.lookup_append, List.lookup_isSome_iff, List.mem_map]
  constructor
  · rintro ⟨e, he, heq⟩
    exact ⟨e, he, (eq_of_beq heq).symm⟩
  · rintro ⟨e, he, rfl⟩
    exact ⟨e, he, beq_self_eq_true _⟩

end Session

/-! ## What a descriptor needs -/

/-- A field whose type is abstract and owned is planned by means of a descriptor that is known. -/
theorem FieldPlan.Realizes.knows {f : PropertyField} {plan : Option FieldPlan}
    (hp : FieldPlan.Realizes w S cache s f plan) (ho : w.provider.owns S f.fieldType = true)
    (ha : S.isAbstract f.fieldType = true) : ∃ d, s.known? cache f.fieldType = some d := by
  cases hp with
  | free ho' => rw [ho] at ho'; cases ho'
  | delegated _ _ _ hd => exact ⟨_, hd⟩
  | built _ ha' => rw [ha] at ha'; cases ha'

/-- What a class needs is known where the class has an implementation. -/
theorem Implementation.Realizes.knows {c : ClassDecl} {i : Implementation}
    (hi : i.Realizes w S cache s t c) {F : Ty} (hn : w.provider.Needs S t F) :
    ∃ d, s.known? cache F = some d := by
  obtain ⟨-, q, hq, m, hc, ho, ha⟩ := hn
  obtain ⟨f, -, k, hf⟩ := hi.properties.exists_of_mem hq
  obtain ⟨G, m', hc', he⟩ := hf.eq
  obtain ⟨rfl, -⟩ := hc.unique hc'
  have hF : f.field.fieldType = F := by rw [he]
  rw [← hF] at ho ha ⊢
  exact hf.plan.knows ho ha

/-- What a class needs is known where the class is served. -/
theorem Descriptor.Serves.knows {x : Descriptor} (hx : x.Serves w S cache s t) {F : Ty}
    (hn : w.provider.Needs S t F) : ∃ d, s.known? cache F = some d := by
  cases hx with
  | concrete hd _ hcon => simp [Provider.Needs, Schema.isAbstract, hd, hcon] at hn
  | implemented _ _ _ hi => exact hi.knows hn

/-- What a class needs, directly or not, is known where the class is known. -/
theorem Session.Tracks.known_of_needs (h : s.Tracks w H S cache) {d : DescriptorId}
    (ht : s.known? cache t = some d) {u : Ty}
    (hr : Relation.ReflTransGen (w.provider.Needs S) t u) : ∃ e, s.known? cache u = some e := by
  induction hr with
  | refl => exact ⟨d, ht⟩
  | tail _ hn ih =>
    obtain ⟨e, he⟩ := ih
    obtain ⟨x, h₀, -, -, hx⟩ := h.serves he
    exact hx.knows hn

/-- What serves an abstract class has been reported. -/
theorem Descriptor.Serves.reports {x : Descriptor} (hx : x.Serves w S cache s t)
    (ha : S.isAbstract t = true) : w.provider.Reports w.heap S t := by
  cases hx with
  | concrete hd _ hcon => simp [Schema.isAbstract, hd, hcon] at ha
  | implemented _ _ _ hi _ hr => exact (hi.report_isSome_iff s.schema).mp (hr ▸ rfl)

/-- The descriptor of an abstract class has an implementation. -/
theorem Descriptor.Serves.product {x : Descriptor} (hx : x.Serves w S cache s t)
    (ha : S.isAbstract t = true) :
    ∃ k, x.product = .cls k ∧ k < s.schema.classes.size := by
  cases hx with
  | concrete hd _ hcon => simp [Schema.isAbstract, hd, hcon] at ha
  | implemented _ _ _ _ hp => exact Schema.lt_size_of_decl? hp

namespace Session

/-- What is known is declared. -/
theorem Tracks.declares (h : s.Tracks w H S cache) {u : Ty}
    (hu : u ∈ (cache ++ s.staged).map Prod.fst) : S.Declares u := by
  obtain ⟨d, hd⟩ := Option.isSome_iff_exists.mp (known?_isSome_iff.mpr hu)
  exact (h.derivable hd).declares

theorem Makes.mono {cache' : List (Ty × DescriptorId)} (he : Extends cache cache' s s')
    {c : ClassId} {d : ClassDecl} (h : s.Makes w S cache c d) : s'.Makes w S cache' c d := by
  obtain ⟨b, e, x, hb, ha, hk, hx, hp, hn⟩ := h.known
  refine ⟨h.concrete, h.below, b, e, x, hb, ha, he.known hk, he.descriptors hx, hp, fun F hF => ?_⟩
  obtain ⟨e', x', k, hk', hx', hp', hlt⟩ := hn F hF
  exact ⟨e', x', k, he.known hk', he.descriptors hx', hp', hlt⟩

theorem Grows.refl (h : s.Tracks w H S cache) : Grows w H S cache inFlight s s :=
  ⟨.refl cache s, h, fun _ _ => id, .inl, fun hx _ => hx, fun hd _ => .inl hd⟩

theorem Grows.trans (h : Grows w H S cache inFlight s s') (h' : Grows w H S cache inFlight s' s'') :
    Grows w H S cache inFlight s s'' :=
  ⟨h.extends'.trans h'.extends', h'.tracks, fun u hu hn => h'.unknown u hu (h.unknown u hu hn),
    fun hc => (h'.made hc).elim (fun hc => (h.made hc).imp_right (Makes.mono h'.extends')) .inr,
    fun hx hd => h.found (h'.found hx hd) hd,
    fun hd ha => (h'.reported hd ha).elim (fun hd => h.reported hd ha) .inr⟩

/-- Fewer types in flight. -/
theorem Grows.tail {u : Ty} (h : Grows w H S cache (u :: inFlight) s s') :
    Grows w H S cache inFlight s s' :=
  ⟨h.extends', h.tracks, fun v hv => h.unknown v (List.mem_cons_of_mem _ hv), h.made, h.found,
    h.reported⟩

theorem Recalls.grows {known : Ty → Bool} (h : s.Recalls w S cache known)
    (hg : Grows w H S cache inFlight s s') : s'.Recalls w S cache known where
  knows hu := (h.knows hu).imp fun _ hd => hg.extends'.known hd
  reports hd ha := (hg.reported hd ha).elim (fun hd => h.reports hd ha) .inr

/-- Nothing stands against a type that is known already. -/
theorem Recalls.verdict {known : Ty → Bool} (h : s.Recalls w S cache known)
    (hs : s.Tracks w H S cache) {d : DescriptorId} (hd : s.known? cache t = some d) {n : Nat}
    (hc : w.provider.Chain S n inFlight t) : w.verdict S known (w.ends S) n inFlight t = .ok () := by
  refine Workshop.verdict_of_ends (hs.derivable hd) (fun u hr hu => ?_) hc
  obtain ⟨e, he⟩ := hs.known_of_needs hd hr
  exact (h.reports he hu).imp_right Workshop.ends_eq_true_iff.mpr

section
variable (hS : S.Closed) (hp : w.provider.Within S) (hH : H w.heap)
variable (hh : ∀ {h}, H h → h.Within S)
include hS hp hH hh

omit hH in
/-- A session that has grown tracks what it knows if it tracks what is new. -/
theorem Tracks.extend (h : s.Tracks w H S cache) (he : Session.Extends cache cache s s')
    (hclosed : s'.schema.Closed) (hdistinct : ((cache ++ s'.staged).map Prod.fst).Nodup)
    (hfounded : w.provider.Founded S (cache ++ s'.staged))
    (hnew : ∀ {t d}, s'.known? cache t = some d → s.known? cache t = some d ∨
      (∃ x h, s'.descriptors[d]? = some x ∧ H h ∧ x.Serves { w with heap := h } S cache s' t) ∧
        w.provider.Derivable w.heap S t) : s'.Tracks w H S cache where
  schema := h.schema.trans he.schema
  closed := hclosed
  distinct := hdistinct
  founded := hfounded
  serves hd := by
    rcases hnew hd with hd | ⟨hx, -⟩
    · obtain ⟨x, h₀, hx, hh₀, hserves⟩ := h.serves hd
      exact ⟨x, h₀, he.descriptors hx, hh₀, hserves.mono hS hp (hh hh₀) h.schema he⟩
    · exact hx
  derivable hd := (hnew hd).elim h.derivable And.right

omit hH in
theorem Tracks.addLookup (h : s.Tracks w H S cache) {l : Lookup} (hl : l.found = none) :
    Grows w H S cache inFlight s (s.addLookup l).2 where
  extends' := extends_addLookup s l
  tracks := h.extend hS hp hh (extends_addLookup s l) h.closed h.distinct h.founded .inl
  unknown _ _ := id
  made := .inl
  found {k x d} hx hd := by
    have hx : (s.lookups.push l)[k]? = some x := hx
    rw [Array.getElem?_push] at hx
    split at hx
    · obtain rfl := Option.some.inj hx
      rw [hl] at hd
      cases hd
    · exact hx
  reported hd _ := .inl hd

/-- Staging a descriptor that serves a type which is not known yet. -/
theorem Tracks.stage (h : s.Tracks w H S cache) {x : Descriptor}
    (hx : x.Serves w S cache (s.stage t x).2 t) (hd' : w.provider.Derivable w.heap S t)
    (hn : s.known? cache t = none) (ht : t ∉ inFlight) :
    Grows w H S cache inFlight s (s.stage t x).2 ∧
      (s.stage t x).2.known? cache t = some (s.stage t x).1 := by
  have hreported : ∀ {u d}, (s.stage t x).2.known? cache u = some d → S.isAbstract u = true →
      s.known? cache u = some d ∨ w.provider.Reports w.heap S u := by
    intro u d hu ha
    rw [known?_stage, Option.or_eq_some_iff] at hu
    rcases hu with hu | ⟨-, hu⟩
    · exact .inl hu
    · obtain ⟨rfl, -⟩ := Option.ite_none_right_eq_some.mp hu
      exact .inr (hx.reports ha)
  refine ⟨⟨extends_stage s t x, ?_, ?_, .inl, fun hx _ => hx, hreported⟩,
    by rw [known?_stage, hn]; simp⟩
  · have hentries : cache ++ (s.stage t x).2.staged =
        cache ++ s.staged ++ [(t, s.descriptors.size)] := (List.append_assoc ..).symm
    have hnew : t ∉ (cache ++ s.staged).map Prod.fst := by
      rw [← known?_isSome_iff, hn]
      simp
    have hdistinct : ((cache ++ (s.stage t x).2.staged).map Prod.fst).Nodup := by
      rw [hentries, List.map_append, List.nodup_append]
      refine ⟨h.distinct, by simp, fun u hu v hv => ?_⟩
      obtain rfl := List.mem_singleton.mp hv
      exact fun he => hnew (he ▸ hu)
    have hfounded : w.provider.Founded S (cache ++ (s.stage t x).2.staged) := by
      rw [hentries]
      refine h.founded.concat fun F hF => ?_
      obtain ⟨d, hd⟩ := hx.knows hF
      have hne : F ≠ t := fun he => hd'.acyclic (.single (he ▸ hF))
      rw [known?_stage, if_neg hne, Option.or_none] at hd
      exact known?_isSome_iff.mp (Option.isSome_iff_exists.mpr ⟨d, hd⟩)
    refine h.extend hS hp hh (extends_stage s t x) h.closed hdistinct hfounded fun {u d} hu => ?_
    rw [known?_stage, Option.or_eq_some_iff] at hu
    rcases hu with hu | ⟨-, hu⟩
    · exact .inl hu
    · obtain ⟨rfl, hid⟩ := Option.ite_none_right_eq_some.mp hu
      obtain rfl := Option.some.inj hid
      exact .inr ⟨⟨x, w.heap, stage_descriptors s u x, hH, hx⟩, hd'⟩
  · intro u hu hnone
    have hne : u ≠ t := fun he => ht (he ▸ hu)
    rw [known?_stage, hnone, if_neg hne, Option.or_none]

end

end Session

/-! ## The class of an implementation, added -/

section
variable (hS : S.Closed) (hp : w.provider.Within S)
include hS hp

/-- The class of an implementation mentions declared types only. -/
theorem Implementation.Realizes.covers {c : ClassDecl} (hc : S.decl? t = some c)
    (ha : c.isAbstract = true) {i : Implementation} (hi : i.Realizes w S cache s t c) :
    S.Covers (i.decl S) := by
  have ht : S.isAbstract t = true := by simp [Schema.isAbstract, hc, ha]
  have hcovers := hS.covers hc
  have hf : ∀ f ∈ i.properties, S.Declares f.field.fieldType ∧
      f.field.property ∈ S.abstractProperties t := by
    intro f hf
    obtain ⟨q, hq, k, hk⟩ := hi.properties.mem hf
    obtain ⟨F, m, -, he⟩ := hk.eq
    exact ⟨(hk.declares hS hp ht hq).1, by rw [he]; exact hq⟩
  refine ⟨?_, ?_, ?_, ?_⟩
  · intro b hb
    obtain ⟨u, hu, hub⟩ := List.mem_filterMap.mp hb
    have hd : S.Declares u := hS.declares_of_mem_ancestors
      (hi.type ▸ Schema.declares_of_decl? hc) hu
    cases u with
    | cls k => obtain rfl := Option.some.inj hub; exact hd
    | any => cases hub
    | carrier => cases hub
    | scalar k => cases hub
    | enum e => cases hub
  · intro f hm
    rcases List.mem_append.mp hm with hm | hm
    · exact hcovers.fields f (hi.base ▸ hm)
    · obtain ⟨g, hg, rfl⟩ := List.mem_map.mp hm
      exact (hf g hg).1
  · intro q hm
    obtain ⟨g, hg, rfl⟩ := List.mem_map.mp hm
    show S.Declares g.field.property.type
    exact hS.declares_abstractProperty (hf g hg).2
  · intro q hm u hu
    obtain ⟨g, hg, rfl⟩ := List.mem_map.mp hm
    obtain ⟨⟨a, ha⟩, -⟩ := Schema.mem_abstractProperties.mp (hf g hg).2
    exact hS.declares_mapType ha hu

variable (hH : H w.heap) (hh : ∀ {h}, H h → h.Within S)
include hH hh

/-- Adding the class and the descriptor of an implementation, if it can be reported. -/
theorem Implementation.finish_answers (h : s.Tracks w H S cache) {c : ClassDecl}
    (hc : S.decl? t = some c) (hm : w.provider.isMapped t c = true) (ha : c.isAbstract = true)
    {i : Implementation} (hi : i.Realizes w S cache s t c)
    (hd : w.provider.Derivable w.heap S t) (hn : s.known? cache t = none) (ht : t ∉ inFlight) :
    Answers (if w.ends S t then .ok () else .error .endless)
      (fun r => Session.Grows w H S cache inFlight s r.2 ∧ r.2.known? cache t = some r.1)
      (i.finish w s) := by
  have hends : (i.report s.schema w.heap).isSome = w.ends S t :=
    Bool.eq_iff_iff.mpr ((hi.report_isSome_iff s.schema).trans Workshop.ends_eq_true_iff.symm)
  rw [finish]
  cases hreport : i.report s.schema w.heap with
  | none =>
    rw [hreport] at hends
    exact .refused (by rw [← hends]; rfl)
  | some report =>
    rw [hreport] at hends
    refine .answered (by rw [← hends]; rfl) ?_
    have hdecl : i.decl s.schema = i.decl S := hi.decl_eq hS hp hc ha h.schema
    have he : Session.Extends cache cache s (s.addClass (i.decl S)).2 :=
      Session.extends_addClass s _
    have hcovers : (s.schema.addClass (i.decl S)).2.Covers (i.decl S) :=
      (hi.covers hS hp hc ha).mono (h.schema.trans he.schema)
    have hadd : (s.addClass (i.decl S)).2.Tracks w H S cache :=
      h.extend hS hp hh he (Schema.Closed.addClass h.closed hcovers) h.distinct h.founded .inl
    have hclass : (s.addClass (i.decl S)).2.schema.decl? (s.addClass (i.decl S)).1 =
        some (i.decl S) := Schema.class?_addClass s.schema (i.decl S)
    have hsame : i.report s.schema w.heap = i.report (s.addClass (i.decl S)).2.schema w.heap :=
      Implementation.report_unique hS hp hc ha h.schema hadd.schema (hh hH) hi (hi.mono he)
    have hserves : (i.descriptor w report (s.addClass (i.decl S)).1).Serves w S cache
        ((s.addClass (i.decl S)).2.stage t
          (i.descriptor w report (s.addClass (i.decl S)).1)).2 t :=
      .implemented hc hm ha ((hi.mono he).mono (Session.extends_stage _ _ _)) hclass
        (hsame.symm.trans hreport) rfl
    rw [hdecl, hi.type]
    obtain ⟨hstage, hknown⟩ := hadd.stage hS hp hH hh hserves hd hn ht
    have hall := he.trans hstage.extends'
    refine ⟨⟨hall, hstage.tracks, fun u hu hn => hstage.unknown u hu hn, fun {k d'} hk => ?_,
      hstage.found, hstage.reported⟩, hknown⟩
    -- the only new class is the implementation itself
    rcases Schema.class?_addClass_eq_some hk with ⟨rfl, rfl⟩ | hold
    · obtain ⟨b, rfl, hb⟩ := Schema.lt_size_of_decl? (Schema.decl?_mono h.schema hc)
      refine .inr ⟨rfl, hi.buildsBelow h.schema, b, _, _, hb, ?_, hknown,
        Session.stage_descriptors .., rfl, fun F hF => ?_⟩
      · simp [Schema.isAbstract, hc, ha]
      · obtain ⟨e, hke⟩ := hi.knows hF
        obtain ⟨x, _, hx, -, hsx⟩ := h.serves hke
        obtain ⟨k, hpk, hlt⟩ := hsx.product hF.abstract
        exact ⟨e, x, k, hall.known hke, hall.descriptors hx, hpk, hlt⟩
    · exact .inl hold

end

/-! ## The functions of the search -/

section
variable {nested : Ty → Except RequestError Unit} {request : Request} {known : Ty → Bool}
variable (hS : S.Closed) (hp : w.provider.Within S) (hh : ∀ {h}, H h → h.Within S)
include hS hp hh

/-- What a request for a type is to give. -/
def Request.Answers (request : Request) (nested : Ty → Except RequestError Unit) (w : Workshop)
    (H : Heap → Prop) (S : Schema) (cache : List (Ty × DescriptorId)) (known : Ty → Bool)
    (inFlight : List Ty) (F : Ty) : Prop :=
  ∀ s, s.Tracks w H S cache → s.Recalls w S cache known → RecordForge.Answers (nested F) (fun r =>
    Session.Grows w H S cache inFlight s r.2 ∧ r.2.known? cache F = some r.1) (request F s)

/-- The plan of a field whose type is abstract. After the request it cannot fail, as the class that
has been made has a public constructor without arguments. -/
theorem FieldPlan.ofAbstract_answers (hs : s.Tracks w H S cache) (hk : s.Recalls w S cache known) {f : PropertyField}
    (ho : w.provider.owns S f.fieldType = true) (ha : S.isAbstract f.fieldType = true)
    (hF : S.Declares f.fieldType)
    (hreq : request.Answers nested w H S cache known inFlight f.fieldType) :
    Answers (nested f.fieldType) (fun r => Session.Grows w H S cache inFlight s r.2 ∧
      FieldPlan.Realizes w S cache r.2 f (some r.1)) (ofAbstract w request f s) := by
  rw [ofAbstract]
  refine (hreq s hs hk).followed fun _ => ?_
  rintro ⟨d, s₁⟩ ⟨hgrows, hknown⟩
  obtain ⟨x, h₀, hx, -, hserves⟩ := hgrows.tracks.serves hknown
  cases hserves with
  | concrete hc _ hcon => simp [Schema.isAbstract, hc, hcon] at ha
  | @implemented c i report hc hm habs hi hpr hr hxe =>
    have hlookup : Session.Grows w H S cache inFlight s₁
        (s₁.addLookup ⟨f.fieldType, w.registry, none⟩).2 :=
      hgrows.tracks.addLookup hS hp hh rfl
    have hinfo := FieldPlan.info?_eq hgrows.tracks.schema hF
    have hfall : fallback s₁.schema f x.product = .ok (.direct x.product defaultIndex []) :=
      fallback_eq_ok_iff.mpr ⟨_, Implementation.publicDefault?_eq hpr, rfl⟩
    have hproduct : w.IsProduct S s₁.schema f.fieldType x.product := ⟨c, _, hc, hpr, hi.name⟩
    have hplan : FieldPlan.Realizes w S cache
        (s₁.addLookup ⟨f.fieldType, w.registry, none⟩).2 f (some
          ⟨f.step (f.parameters.elim (.direct x.product defaultIndex []) fun _ =>
            .lookup s₁.lookups.size .transient),
          some (f.step (.lookup s₁.lookups.size .argument)), info? S f⟩) :=
      .delegated ho ha (congrArg (Option.map _) (Session.addLookup_lookups s₁ _)) hknown hx
        hproduct rfl
    refine ⟨(_, (s₁.addLookup ⟨f.fieldType, w.registry, none⟩).2), ?_, hgrows.trans hlookup,
      hplan⟩
    have htarget : (s₁.descriptors[d]?).elim f.fieldType Descriptor.product = x.product := by
      rw [hx, Option.elim_some]
    simp only [Session.addLookup, htarget, hinfo]
    cases f.parameters with
    | some vs => rfl
    | none =>
      simp only [Option.elim_none]
      rw [hfall]
      rfl

/-- The plan of a field. -/
theorem FieldPlan.make_answers (hs : s.Tracks w H S cache) (hk : s.Recalls w S cache known) {f : PropertyField}
    (hF : S.Declares f.fieldType)
    (hreq : w.provider.owns S f.fieldType = true → S.isAbstract f.fieldType = true →
      request.Answers nested w H S cache known inFlight f.fieldType) :
    Answers (f.verdict w S nested) (fun r => Session.Grows w H S cache inFlight s r.2 ∧
      FieldPlan.Realizes w S cache r.2 f r.1) (make w request f s) := by
  have hdecl := Schema.decl?_eq hs.schema hF
  rw [make, hdecl, PropertyField.verdict]
  cases hd : S.decl? f.fieldType with
  | none =>
    have ho : w.provider.owns S f.fieldType = false := by simp [Provider.owns, hd]
    simp only [ho, Bool.false_eq_true, if_false]
    exact .answered rfl ⟨.refl hs, .free ho⟩
  | some c =>
    have ho : w.provider.owns S f.fieldType =
        !(c.isValueType || !w.provider.isMapped f.fieldType c) := by
      simp [Provider.owns, hd]
    have habs : S.isAbstract f.fieldType = c.isAbstract := by simp [Schema.isAbstract, hd]
    rw [habs]
    dsimp only
    cases howns : c.isValueType || !w.provider.isMapped f.fieldType c with
    | true =>
      rw [howns] at ho
      simp only [ho, if_true, Bool.not_true, Bool.false_eq_true, if_false]
      exact .answered rfl ⟨.refl hs, .free ho⟩
    | false =>
      rw [howns] at ho
      simp only [ho, Bool.false_eq_true, if_false, Bool.not_false, if_true]
      cases ha : c.isAbstract with
      | true =>
        simp only [if_true]
        rw [ha] at habs
        refine (ofAbstract_answers hS hp hh hs hk ho habs hF (hreq ho habs)).followed fun _ => ?_
        rintro ⟨plan, s₁⟩ h
        exact ⟨_, rfl, h⟩
      | false =>
        simp only [Bool.false_eq_true, if_false]
        rw [ha] at habs
        rw [ofConcrete_eq hs.schema hF]
        exact .last fun plan hplan => ⟨.refl hs, .built ho habs hplan⟩

/-- A property of an implementation. -/
theorem ForgedProperty.make_answers (hs : s.Tracks w H S cache) (hk : s.Recalls w S cache known) (hd : S.Declares t)
    (ht : S.isAbstract t = true) {q : PropertyDecl} (hq : q ∈ S.abstractProperties t)
    (hreq : ∀ F, w.provider.Needs S t F → S.Declares F →
      request.Answers nested w H S cache known inFlight F) {slot : Nat} :
    Answers (w.propertyVerdict S nested t q slot) (fun r =>
      Session.Grows w H S cache inFlight s r.2 ∧ r.1.Realizes w S cache r.2 t q slot)
      (make w request t q slot s) := by
  rw [make, Workshop.propertyVerdict, PropertyField.choose_eq hs.schema hS hp ht hd hq slot]
  refine .step fun f hf => ?_
  obtain ⟨F, m, hc, rfl⟩ := PropertyField.choose_eq_ok_iff.mp hf
  have hF : S.Declares F := hc.declares hS hp ht hq
  refine (FieldPlan.make_answers hS hp hh hs hk hF fun ho ha =>
    hreq F ⟨ht, q, hq, m, hc, ho, ha⟩ hF).bind fun _ => ?_
  rintro ⟨plan, s₁⟩ ⟨hgrows, hplan⟩
  dsimp only
  rw [PropertyField.setterShape_eq hgrows.tracks.schema hF hd]
  exact .last fun shape hshape => ⟨hgrows, hf, hplan, hshape⟩

/-- The properties of an implementation. -/
theorem ForgedProperty.makeAll_answers (hs : s.Tracks w H S cache) (hk : s.Recalls w S cache known) (hd : S.Declares t)
    (ht : S.isAbstract t = true)
    (hreq : ∀ F, w.provider.Needs S t F → S.Declares F →
      request.Answers nested w H S cache known inFlight F)
    {qs : List PropertyDecl} (hqs : ∀ q ∈ qs, q ∈ S.abstractProperties t) {slot : Nat} :
    Answers (w.propertiesVerdict S nested t qs slot) (fun r =>
      Session.Grows w H S cache inFlight s r.2 ∧ RealizeAll w S cache r.2 t qs slot r.1)
      (makeAll w request t qs slot s) := by
  induction qs generalizing s slot with
  | nil => exact .answered rfl ⟨.refl hs, .nil⟩
  | cons q qs ih =>
    rw [makeAll, Workshop.propertiesVerdict]
    refine (make_answers hS hp hh hs hk hd ht (hqs q List.mem_cons_self) hreq).bind fun _ => ?_
    rintro ⟨f, s₁⟩ ⟨hgrows, hf⟩
    refine (ih hgrows.tracks (hk.grows hgrows) fun q hm => hqs q (List.mem_cons_of_mem _ hm)).followed fun _ => ?_
    rintro ⟨fs, s₂⟩ ⟨hgrows', hfs⟩
    exact ⟨_, rfl, hgrows.trans hgrows', .cons (hf.mono hgrows'.extends') hfs⟩

/-- The implementation of an abstract class. -/
theorem Implementation.make_answers (hs : s.Tracks w H S cache) (hk : s.Recalls w S cache known) {c : ClassDecl}
    (hc : S.decl? t = some c) (ha : c.isAbstract = true)
    (hreq : ∀ F, w.provider.Needs S t F → S.Declares F →
      request.Answers nested w H S cache known inFlight F) :
    Answers (w.propertiesVerdict S nested t (S.abstractProperties t) c.layout.length) (fun r =>
      Session.Grows w H S cache inFlight s r.2 ∧ r.1.Realizes w S cache r.2 t c)
      (make w request t c s) := by
  have hd : S.Declares t := Schema.declares_of_decl? hc
  have ht : S.isAbstract t = true := by simp [Schema.isAbstract, hc, ha]
  have habstracts := Schema.abstractProperties_eq hs.schema hS hd
  rw [Schema.abstractProperties] at habstracts
  rw [make]
  dsimp only
  rw [habstracts]
  refine (ForgedProperty.makeAll_answers hS hp hh hs hk hd ht hreq fun _ hq => hq).followed
    fun _ => ?_
  rintro ⟨fs, s₁⟩ ⟨hgrows, hfs⟩
  exact ⟨_, rfl, hgrows, rfl, rfl, rfl, hfs⟩

/-- An answer of the search is the verdict of the search without memory. -/
theorem Registry.find_answers (hH : H w.heap) (r : Registry) {n : Nat} (hs : s.Tracks w H S r.cache)
    (hk : s.Recalls w S r.cache known) (hd : S.Declares t) (hc : w.provider.Chain S n inFlight t) :
    Answers (w.verdict S known (w.ends S) n inFlight t) (fun x =>
      Session.Grows w H S r.cache inFlight s x.2 ∧ x.2.known? r.cache t = some x.1)
      (r.find w n inFlight t s) := by
  induction n generalizing inFlight t s with
  | zero => exact absurd hc.levels_pos (Nat.lt_irrefl 0)
  | succ n ih =>
    rw [find]
    cases hknown : (r.cached? t).or (s.staged.lookup t) with
    | some d => exact .answered (hk.verdict hs hknown hc) ⟨.refl hs, hknown⟩
    | none =>
      have hunknown : s.known? r.cache t = none := hknown
      have hnew : known t = false := by
        refine Bool.eq_false_iff.mpr fun hbefore => ?_
        obtain ⟨d, hd⟩ := hk.knows hbefore
        cases hd.symm.trans hunknown
      rw [Workshop.verdict, Schema.decl?_eq hs.schema hd, Schema.name_eq hs.schema hd, hnew]
      simp only [Bool.false_eq_true, if_false]
      cases hdecl : S.decl? t with
      | none => exact .refused rfl
      | some c =>
        cases hm : w.provider.isMapped t c with
        | false =>
          simp only [hm, Bool.not_false, if_true]
          exact .refused rfl
        | true =>
          simp only [hm, Bool.not_true, Bool.false_eq_true, if_false]
          cases ha : c.isAbstract with
          | false =>
            have hfree : t ∉ inFlight := by
              intro hmem
              obtain ⟨F, hneeds, -⟩ := Relation.TransGen.head'_iff.mp (hc.needs t hmem)
              simp [Provider.Needs, Schema.isAbstract, hdecl, ha] at hneeds
            have hx : (Descriptor.concrete s.schema t w.listener).Serves w S r.cache
                (s.stage t (Descriptor.concrete s.schema t w.listener)).2 t :=
              .concrete hdecl hm ha (Descriptor.concrete_eq hs.schema hd w.listener)
            simp only [Bool.not_false, if_true]
            exact .answered rfl (hs.stage hS hp hH hh hx (.concrete hdecl hm ha) hunknown hfree)
          | true =>
            simp only [Bool.not_true, Bool.false_eq_true, if_false]
            split
            · exact .refused rfl
            · next hcontains =>
              have hfree : t ∉ inFlight := by simpa using hcontains
              refine (Implementation.make_answers hS hp hh hs hk hdecl ha
                fun F hF hdF s₁ hs₁ hk₁ => ih hs₁ hk₁ hdF (hc.push hfree hF)).bind fun hverdict => ?_
              rintro ⟨i, s₁⟩ ⟨hgrows, hi⟩
              have hderivable : w.provider.Derivable w.heap S t :=
                Workshop.derivable_of_properties hdecl hm ha
                  (fun F hF => Workshop.derivable_of_verdict (fun u hu => by
                    obtain ⟨d, hd⟩ := hk.knows hu
                    exact hs.derivable hd) hF)
                  ((w.propertiesVerdict_eq_ok_iff).mp hverdict)
              have hnone := hgrows.unknown t List.mem_cons_self hunknown
              have hfinish := Implementation.finish_answers hS hp hH hh hgrows.tracks hdecl hm ha hi
                hderivable hnone hfree
              exact hfinish.imp fun _ hx => ⟨hgrows.tail.trans hx.1, hx.2⟩

end

end RecordForge
