import RecordForge.Proofs.Access.Equipment

/-!
# Writing, then reading

Instances are created through the descriptor of an implementation (`World.Creates`), and then values are
written to their stored properties, in any order (`World.Writes`). A write succeeds exactly if its value
may be stored where the type of the property is expected. What it leaves as it is, and what is read
after many writes, is `World.round_trip`: the last value that was written, whatever was written
elsewhere since.

Each write keeps what the next one needs (`World.Stocked`).
-/

namespace RecordForge

open Run

/-! ## Places -/

/-- A value that is written to a property of an object. -/
structure Assignment where
  target : ObjectId
  property : PropertyDecl
  value : Value

/-- A property of an object is the one that a value is written to. -/
def Assignment.IsAt (a : Assignment) (o : ObjectId) (name : String) : Prop :=
  o = a.target ∧ name = a.property.name

section
variable {w : World} {s : Schema} {c : ClassId} {d : ClassDecl} {o o' : ObjectId} {k : Nat}
variable {name : String} {p : PropertyDecl} {product : Ty}

/-- A stored property is read from its slot. -/
theorem Schema.Accesses.reads (hp : s.Accesses d product p k) :
    ∃ g, d.Reads p.name g ∧ g.slot? = some k := by
  cases hp with
  | direct _ hread => exact ⟨_, hread, rfl⟩
  | wrapped _ _ _ _ hread => exact ⟨_, hread, rfl⟩

/-- A stored property of an instance is read without running a body of a user, and without coming to
another property, or to the property of another instance. -/
theorem Schema.Accesses.reads_past (hp : w.schema.Accesses d (.cls c) p k) (ho : w.Equipped c d o)
    (ho' : w.Equipped c d o') (hne : ¬(o = o' ∧ p.name = name)) : w.ReadsPast d o' name o p.name := by
  have hclass := ho.classOf
  obtain ⟨g, hr, hk⟩ := hp.reads
  have hkeeps : o = o' → d.KeepsElse name k := fun he =>
    .inr ⟨p.name, g, fun hname => hne ⟨he, hname⟩, hr, hk⟩
  cases hp with
  | direct _ hread hget =>
    refine .own fun g hg => ?_
    rw [hclass] at hg
    obtain rfl := Except.ok.inj (hget.symm.trans hg)
    refine ⟨rfl, fun j hj he => ?_⟩
    obtain rfl := List.mem_singleton.mp hj
    exact hkeeps he
  | wrapped hF _ hlayout hblank hread hget =>
    obtain ⟨y, i, hy, hi, hs⟩ := ho.wrappers hread hlayout hblank
    refine .through (hclass ▸ hget) hkeeps (fun _ _ _ hplace => by cases hplace)
      fun z _ _ hz _ => .own fun g hg => ?_
    obtain rfl := Value.object.inj (Option.some.inj (hz.symm.trans hy))
    rw [World.classOf_of_shape hi hs] at hg
    obtain rfl := Except.ok.inj ((Schema.getterFor_nullable hF).symm.trans hg)
    -- the wrapper is held by value, so it is no instance
    refine ⟨rfl, fun _ _ he => ?_⟩
    have hbyValue : w.heap.isByValue (.object z) = true :=
      Heap.isByValue_object.mpr ⟨i, hi, congrArg Shape.byValue hs⟩
    rw [he, ho'.isByValue] at hbyValue
    cases hbyValue

end

/-! ## One write -/

/-- A write that may be tried: a stored property of one of some instances is given a value that is
there. -/
structure World.Offers (w : World) (v : Provider) (t : Ty) (os : List ObjectId) (a : Assignment) :
    Prop where
  target : a.target ∈ os
  declared : ∃ b, (b, a.property) ∈ w.schema.publicProperties t
  isAbstract : a.property.isAbstract = true
  stored : v.Stores w.schema t a.property
  value : a.value.Known w.heap

/-- Instances of an implementation whose stored properties can be written and read. -/
structure World.Stocked (w : World) (v : Provider) (t : Ty) (c : ClassId) (d : ClassDecl)
    (os : List ObjectId) : Prop where
  tidy : w.heap.Tidy
  keeps : d.Keeps w.schema
  accesses : ∀ {b p}, (b, p) ∈ w.schema.publicProperties t → p.isAbstract = true →
    v.Stores w.schema t p → ∃ k, w.schema.Accesses d (.cls c) p k
  equipped : ∀ o ∈ os, w.Equipped c d o

namespace World

variable {w w' w'' : World} {v : Provider} {t : Ty} {c : ClassId} {d : ClassDecl}
variable {os : List ObjectId} {a : Assignment} {o : ObjectId} {name : String} {k : Nat}
variable {u value : Value} {r : Except Halt Unit} {depth : Nat}

/-- A write changes the heap only. -/
theorem Stocked.of_written (h : w.Stocked v t c d os)
    (hw : w.Written c d o k name value w') : w'.Stocked v t c d os := by
  obtain ⟨hrest, a, P, hover, -⟩ := hw.updates
  have hs : w'.schema = w.schema := by rw [hrest]
  refine ⟨hover.tidy, hs ▸ h.keeps, fun {b p} hp ha hstores => ?_,
    fun o ho => hw.equipped (h.equipped o ho)⟩
  rw [hs] at hp hstores ⊢
  exact h.accesses hp ha hstores

/-- Nothing is a change of nothing. -/
theorem Updates.refl (ht : w.heap.Tidy) (o : ObjectId) (k : Nat) : w.Updates o k w :=
  ⟨rfl, o, fun _ => False, ⟨ht, .refl _, fun _ hi => hi, fun _ => rfl⟩, .inl ⟨rfl, fun _ hj => hj.elim⟩⟩

/-- **What a write does.** It succeeds exactly if the value may be stored, and else changes nothing. -/
theorem Stocked.write (h : w.Stocked v t c d os) (ha : w.Offers v t os a)
    (hr : setProperty (depth + 2) a.target a.property.name a.value w = (r, w')) :
    (r = .ok () ↔ ∃ u, w.schema.cast w.heap a.value a.property.type = .ok u) ∧
      w'.Stocked v t c d os ∧ ∃ k, w.schema.Accesses d (.cls c) a.property k ∧
        (r = .ok () ∧ w.Written c d a.target k a.property.name a.value w' ∨ r ≠ .ok () ∧ w' = w) := by
  obtain ⟨b, hp⟩ := ha.declared
  obtain ⟨k, hk⟩ := h.accesses hp ha.isAbstract ha.stored
  obtain ⟨hfails, hsucceeds⟩ := (h.equipped _ ha.target).write h.keeps h.tidy hk ha.value
  cases hcast : w.schema.cast w.heap a.value a.property.type with
  | error e =>
    obtain ⟨rfl, rfl⟩ := Prod.mk.inj ((hfails e hcast depth).symm.trans hr)
    exact ⟨⟨fun he => (nomatch he), fun ⟨u, hu⟩ => (nomatch hu)⟩, h, k, hk,
      .inr ⟨fun he => (nomatch he), rfl⟩⟩
  | ok u =>
    obtain ⟨w'', hset, hwritten⟩ := hsucceeds u hcast
    obtain ⟨rfl, rfl⟩ := Prod.mk.inj ((hset depth).symm.trans hr)
    exact ⟨⟨fun _ => ⟨u, rfl⟩, fun _ => rfl⟩, h.of_written hwritten, k, hk, .inl ⟨rfl, hwritten⟩⟩

/-- **What a write leaves as it is**, whether it succeeds or not: what is read elsewhere. -/
theorem Stocked.write_elsewhere (h : w.Stocked v t c d os) (ha : w.Offers v t os a)
    (hr : setProperty (depth + 2) a.target a.property.name a.value w = (r, w')) (ho : o ∈ os)
    (hpast : w.ReadsPast d a.target a.property.name o name) (depth : Nat) :
    Agree w w' (getProperty depth o name) fun u => w.heap.Alike w'.heap u u := by
  obtain ⟨-, -, k, hk, hcases⟩ := h.write ha hr
  obtain ⟨g, hread, hslot⟩ := hk.reads
  have ho := h.equipped o ho
  have hupdates : w.Updates a.target k w' := by
    rcases hcases with ⟨-, hwritten⟩ | ⟨-, rfl⟩
    · exact hwritten.updates
    · exact .refl h.tidy _ _
  have hagree := hupdates.reads h.tidy (h.equipped _ ha.target) h.keeps hread hslot hpast
    ho.lt_size fun j hj => hupdates.field?_eq ho hj
  exact (hagree depth).imp fun u hu => hu.2

/-! ## Many writes -/

/-- Writes to stored properties of instances, one after the other, each with what came of it. -/
inductive Writes (v : Provider) (t : Ty) (os : List ObjectId) (w : World) :
    List (Assignment × Except Halt Unit) → World → Prop
  | refl : Writes v t os w [] w
  | tail {w' w'' : World} {log : List (Assignment × Except Halt Unit)} {a : Assignment}
      {depth : Nat} {r : Except Halt Unit} (h : Writes v t os w log w') (ha : w'.Offers v t os a)
      (hr : setProperty (depth + 2) a.target a.property.name a.value w' = (r, w'')) :
      Writes v t os w (log ++ [(a, r)]) w''

variable {log before after : List (Assignment × Except Halt Unit)}

theorem Writes.stocked (hw : w.Writes v t os log w') (h : w.Stocked v t c d os) :
    w'.Stocked v t c d os := by
  induction hw with
  | refl => exact h
  | tail _ ha hr ih => exact (ih.write ha hr).2.1

theorem Writes.schema_eq (hw : w.Writes v t os log w') (h : w.Stocked v t c d os) :
    w'.schema = w.schema := by
  induction hw with
  | refl => rfl
  | tail hw ha hr ih =>
    obtain ⟨-, -, _, -, ⟨-, hwritten⟩ | ⟨-, rfl⟩⟩ := (hw.stocked h).write ha hr
    · rw [hwritten.updates.rest]
      exact ih
    · exact ih

/-- A write is tried in the world to which those before it lead. -/
theorem Writes.exists_before (hw : w.Writes v t os (before ++ (a, r) :: after) w') :
    ∃ w₁ w₂ depth, w.Writes v t os before w₁ ∧ w₁.Offers v t os a ∧
      setProperty (depth + 2) a.target a.property.name a.value w₁ = (r, w₂) ∧
        w₂.Writes v t os after w' := by
  generalize hlog : before ++ (a, r) :: after = log at hw
  induction hw generalizing after with
  | refl => exact (List.append_ne_nil_of_right_ne_nil _ (List.cons_ne_nil _ _) hlog).elim
  | @tail w₃ w₄ log b depth s h hb hs ih =>
    rcases List.eq_nil_or_concat after with rfl | ⟨after, e, rfl⟩
    · obtain ⟨rfl, he⟩ := List.append_inj' hlog rfl
      obtain ⟨rfl, rfl⟩ := Prod.mk.inj (List.singleton_inj.mp he)
      exact ⟨w₃, w₄, depth, h, hb, hs, .refl⟩
    · rw [List.concat_eq_append, ← List.cons_append, ← List.append_assoc] at hlog
      obtain ⟨hinit, he⟩ := List.append_inj' hlog rfl
      obtain rfl := List.singleton_inj.mp he
      obtain ⟨w₁, w₂, n, hbefore, ha, hset, hafter⟩ := ih hinit
      exact ⟨w₁, w₂, n, hbefore, ha, hset, List.concat_eq_append ▸ hafter.tail hb hs⟩

/-- What is read from a stored property stays, with its contents, until another value is written to
it. -/
theorem Writes.read_stays {h : Heap} {p : PropertyDecl} (hw : w.Writes v t os log w')
    (hstocked : w.Stocked v t c d os) (ho : o ∈ os) (hp : w.schema.Accesses d (.cls c) p k)
    (hlog : ∀ e ∈ log, e.2 = .ok () → ¬e.1.IsAt o p.name)
    (hread : ∀ depth, getProperty (depth + 2) o p.name w = (.ok u, w))
    (hsame : h.Alike w.heap value u) :
    (∀ depth, getProperty (depth + 2) o p.name w' = (.ok u, w')) ∧ h.Alike w'.heap value u := by
  induction hw with
  | refl => exact ⟨hread, hsame⟩
  | @tail w₁ w₂ log a depth r hw ha hr ih =>
    obtain ⟨hread₁, hsame₁⟩ := ih fun e he => hlog e (List.mem_append_left _ he)
    have h₁ := hw.stocked hstocked
    obtain ⟨-, -, _, -, ⟨rfl, -⟩ | ⟨-, rfl⟩⟩ := h₁.write ha hr
    · have hp₁ : w₁.schema.Accesses d (.cls c) p k := hw.schema_eq hstocked ▸ hp
      have hne : ¬a.IsAt o p.name :=
        hlog _ (List.mem_append_right _ (List.mem_singleton.mpr rfl)) rfl
      have hpast := hp₁.reads_past (h₁.equipped o ho) (h₁.equipped _ ha.target) hne
      have hagree := h₁.write_elsewhere ha hr ho hpast
      have hkept : ∀ depth, getProperty (depth + 2) o p.name w₂ = (.ok u, w₂) ∧
          w₁.heap.Alike w₂.heap u u := fun depth => by
        obtain ⟨r, hr₁, hr₂, hu⟩ := hagree (depth + 2)
        obtain ⟨rfl, -⟩ := Prod.mk.inj ((hread₁ depth).symm.trans hr₁)
        exact ⟨hr₂, hu u rfl⟩
      exact ⟨fun depth => (hkept depth).1, hsame₁.trans (hkept 0).2⟩
    · exact ⟨hread₁, hsame₁⟩

/-! ## Instances of a published descriptor -/

/-- Instances that are created through the descriptor of an implementation, one after the other, with
carriers or without. The bodies of users that are run in the course of that leave instances equipped. -/
inductive Creates (x : Descriptor) (c : ClassId) (d : ClassDecl) (w : World) :
    List ObjectId → World → Prop
  | refl : Creates x c d w [] w
  | tail {w' w'' : World} {os : List ObjectId} {given : Option CarrierId} {depth : Nat}
      {r : Except Halt Creation} (h : Creates x c d w os w')
      (hgiven : ∀ k ∈ given, (Value.carrier k).Known w'.heap)
      (hbodies : ∀ act ∈ x.creating given, Situation.Respects c d ⟨w', act, []⟩)
      (hr : Run.create depth x given w' = (r, w'')) :
      Creates x c d w (os ++ (r.toOption.bind Creation.object?).toList) w''

variable {x : Descriptor} {reg : RegistryId} {registry : Registry} {e : DescriptorId}

/-- All instances that are created are equipped in the end. -/
theorem Creates.equipped (hcreates : w.Creates x c d os w') (hw : w.Hosts c d)
    (hx : x.product = .cls c) :
    w'.Hosts c d ∧ w.Leads w' ∧ ∀ o ∈ os, w'.Equipped c d o := by
  induction hcreates with
  | refl => exact ⟨hw, .refl w, fun _ ho => (List.not_mem_nil ho).elim⟩
  | @tail _ _ _ _ _ r _ hgiven hbodies hr ih =>
    obtain ⟨hw', hleads, hequipped⟩ := ih
    obtain ⟨htends, hretains, hnew⟩ := create_equipped hw' hx hgiven hbodies hr
    refine ⟨hw'.tends htends, hleads.trans (htends.leads hw'.sound), fun o ho => ?_⟩
    rcases List.mem_append.mp ho with ho | ho
    · exact hretains o (hequipped o ho)
    · refine hnew o ?_
      cases r with
      | error e => cases Option.mem_toList.mp ho
      | ok creation =>
        cases creation with
        | created o' =>
          obtain rfl := Option.some.inj (Option.mem_toList.mp ho)
          rfl
        | failed f => cases Option.mem_toList.mp ho
        | unavailable => cases Option.mem_toList.mp ho

/-- The implementation of a published descriptor keeps its properties in slots of their own, and has
accessors for those that are stored. -/
theorem keeps_of_published (hsound : w.quiet.Sound) (hr : w.registries[reg]? = some registry)
    (hc : registry.cached? t = some e) (hx : w.descriptors[e]? = some x)
    (hs : x.isSynthesized = true) (hproduct : x.product = .cls c)
    (hd : w.schema.class? c = some d) :
    d.Keeps w.schema ∧ ∀ {b p}, (b, p) ∈ w.schema.publicProperties t → p.isAbstract = true →
      registry.provider.Stores w.schema t p → ∃ k, w.schema.Accesses d (.cls c) p k := by
  obtain ⟨h₀, -, hserves⟩ := (hsound.registries hr).serves_cached hc hx
  cases hserves with
  | concrete _ _ _ hx =>
    rw [hx] at hs
    cases hs
  | @implemented base i _ hbase _ _ hi hp _ hx =>
    have hp : w.schema.decl? x.product = some (i.decl w.schema) := hp
    have hbase : w.schema.decl? t = some base := hbase
    rw [hproduct] at hp
    obtain rfl := Option.some.inj (hd.symm.trans hp)
    obtain ⟨b, rfl, -⟩ := Schema.lt_size_of_decl? hbase
    exact ⟨hi.keeps hi.type (hi.base ▸ hbase),
      fun hp' ha hstores => hi.accesses hp hp' ha hstores⟩

/-- **Writing, then reading.** In a world that has come about from nothing, instances are created
through the published descriptor of an implementation, and then values are written to stored properties
of them, any number of times.

A further write succeeds exactly if its value may be stored where the type of the property is expected.
Whether it succeeds or not, what is read from another property of the instance, or from any property of
another instance, stays as it is, with its contents, if it is read without running a body of a user and
without coming to the property that is written; all other stored properties are. And what is read from a
property has the contents that the last value had that was written to it. -/
theorem round_trip (harises : w.Arises) (hr : w.registries[reg]? = some registry)
    (hc : registry.cached? t = some e) (hx : w.descriptors[e]? = some x)
    (hs : x.isSynthesized = true) (hproduct : x.product = .cls c)
    (hd : w.schema.class? c = some d) (hcreates : w.Creates x c d os w')
    (hwrites : w'.Writes registry.provider t os log w'') :
    (∀ a, w''.Offers registry.provider t os a → ∀ o ∈ os, ∀ b p,
      (b, p) ∈ w''.schema.publicProperties t → p.isAbstract = true →
        registry.provider.Stores w''.schema t p → ¬a.IsAt o p.name →
          w''.ReadsPast d a.target a.property.name o p.name) ∧
    (∀ a, w''.Offers registry.provider t os a → ∀ depth r w₁,
      setProperty (depth + 2) a.target a.property.name a.value w'' = (r, w₁) →
      (r = .ok () ↔ ∃ u, w''.schema.cast w''.heap a.value a.property.type = .ok u) ∧
        ∀ o ∈ os, ∀ name, w''.ReadsPast d a.target a.property.name o name → ∀ depth,
          Agree w'' w₁ (getProperty depth o name) fun u => w''.heap.Alike w₁.heap u u) ∧
    ∀ before a after, log = before ++ (a, .ok ()) :: after →
      (∀ b ∈ after, b.2 = .ok () → ¬b.1.IsAt a.target a.property.name) →
        ∃ w₁ u, w'.Writes registry.provider t os before w₁ ∧ w₁.heap.Alike w''.heap a.value u ∧
          ∀ depth, getProperty (depth + 2) a.target a.property.name w'' = (.ok u, w'') := by
  obtain ⟨⟨_, hruns⟩, htidy⟩ := harises.comes_about
  have hsound : w.quiet.Sound := Scene.sound_of_runs hruns
  obtain ⟨hkeeps, -⟩ := keeps_of_published hsound hr hc hx hs hproduct hd
  have hw : w.Hosts c d := ⟨hsound, Scene.sorted_of_runs hruns, htidy, hd, hkeeps⟩
  obtain ⟨hw', ⟨_, hruns'⟩, hequipped⟩ := hcreates.equipped hw hproduct
  -- the registry knows the descriptor still
  have hevolves := hruns'.evolves hsound
  obtain ⟨registry', hr', hkept⟩ := hevolves.registries hr
  obtain ⟨-, haccesses⟩ := keeps_of_published hw'.sound hr' (hkept.cached hc)
    (hevolves.world.descriptors hx) hs hproduct hw'.cls
  rw [hkept.provider] at haccesses
  have h' : w'.Stocked registry.provider t c d os := ⟨hw'.tidy.heap, hw'.keeps, haccesses, hequipped⟩
  have h'' := hwrites.stocked h'
  refine ⟨fun a ha o ho b p hp habstract hstores hne => ?_, fun a ha depth r w₁ hset =>
    ⟨(h''.write ha hset).1, fun o ho name hpast => h''.write_elsewhere ha hset ho hpast⟩, ?_⟩
  · obtain ⟨k, hk⟩ := h''.accesses hp habstract hstores
    exact hk.reads_past (h''.equipped o ho) (h''.equipped _ ha.target) hne
  rintro before a after rfl hafter
  obtain ⟨w₁, w₂, depth, hbefore, ha, hset, hlog⟩ := hwrites.exists_before
  have h₁ := hbefore.stocked h'
  obtain ⟨-, h₂, k, hk, ⟨-, hwritten⟩ | ⟨hfailed, -⟩⟩ := h₁.write ha hset
  · obtain ⟨u, hread, hsame⟩ := hwritten.reads
    have hk₂ : w₂.schema.Accesses d (.cls c) a.property k := by
      rw [hwritten.updates.rest]
      exact hk
    obtain ⟨hread', hsame'⟩ := hlog.read_stays h₂ ha.target hk₂ hafter hread hsame
    exact ⟨w₁, u, hbefore, hsame', hread'⟩
  · exact (hfailed rfl).elim

end World

/-! ### Scenes -/

/-- A creation through a descriptor of a world. -/
def World.afterCreation (w : World) (n : Nat) (e : DescriptorId) : World :=
  (w.descriptors[e]?).elim w fun x => (Run.create n x none w).2

/-- A creation in which no body of a user is run. -/
theorem World.Creates.concat {w w' : World} {x : Descriptor} {c : ClassId} {d : ClassDecl}
    {os : List ObjectId} {o : ObjectId} {e : DescriptorId} {n : Nat} (levels : Nat)
    (h : w.Creates x c d os w') (hx : w'.descriptors[e]? = some x)
    (hsurvey : (w'.descriptors[e]?).all (fun x => (x.creating none).all fun act =>
      Situation.survey (Calls.nested n) (fun m => !m.act.isUser) levels ⟨w', act, []⟩) = true)
    (hcreate : (w'.descriptors[e]?).all (fun x =>
      decide ((Run.create n x none w').1 = .ok (.created o))) = true) :
    w.Creates x c d (os ++ [o]) (w'.afterCreation n e) := by
  have hr := World.create_of_depth hcreate hx n (Nat.le_refl n)
  have hrun : Run.create n x none w' = (.ok (.created o), (Run.create n x none w').2) :=
    Prod.ext hr rfl
  rw [World.afterCreation, hx, Option.elim_some]
  have hnone : ∀ k ∈ (none : Option CarrierId), (Value.carrier k).Known w'.heap :=
    fun _ hk => nomatch hk
  exact h.tail hnone
    (fun act hact => .of_survey (all_creating hsurvey hx act hact)) hrun

/-- A write in a world. -/
def World.afterWrite (w : World) (a : Assignment) : World :=
  (Run.setProperty 2 a.target a.property.name a.value w).2

theorem World.Writes.concat {w w' : World} {v : Provider} {t : Ty} {os : List ObjectId}
    {log : List (Assignment × Except Halt Unit)} {a : Assignment} {r : Except Halt Unit}
    (h : w.Writes v t os log w') (ha : w'.Offers v t os a)
    (hr : (Run.setProperty 2 a.target a.property.name a.value w').1 = r) :
    w.Writes v t os (log ++ [(a, r)]) (w'.afterWrite a) :=
  h.tail ha (Prod.ext hr rfl)

/-- The world in which a carrier holds the first object as its parameter. -/
def World.offered (w : World) : World :=
  { w with heap := { w.heap with carriers := #[some [.object 0]] } }

namespace Scene

/-- Drafts of a nullable wrapper of texts, and of an abstract class with a property that is kept in such
a wrapper, one that is kept in a slot, and one with a field of its own. -/
def ledgerDrafts : List ClassDraft :=
  [Nullable.draft "Ledger.Memo" .text true,
   { name := "Ledger.Entry", isAbstract := true
     members := [.auto "Page" .any,
       .property { World.forestProperty (.scalar .text) with
         name := "Memo", attributes := [.mapType (.cls 0)] },
       .property { World.forestProperty (.scalar (.integer .i32)) with name := "Amount" },
       .defaultConstructor] }]

/-- The world in which `Ledger.Entry` has been implemented. -/
def ledger : World := asked ledgerDrafts (.cls 1)

theorem ledger_canDeclare : CanDeclare {} ledgerDrafts := by decide +kernel

theorem ledger_arises : ledger.Arises :=
  asked_arises ledger_canDeclare (by decide) (by decide) (by decide +kernel) (.cls 1)

/-- The property that is kept in a wrapper. -/
def ledgerMemo : PropertyDecl :=
  { World.forestProperty (.scalar .text) with name := "Memo", attributes := [.mapType (.cls 0)] }

/-- The property that is kept in a slot. -/
def ledgerAmount : PropertyDecl :=
  { World.forestProperty (.scalar (.integer .i32)) with name := "Amount" }

/-- The world in which two entries have been created. -/
def ledgerEntries : World := (ledger.afterCreation 4 0).afterCreation 4 0

theorem ledger_creates {x : Descriptor} {d : ClassDecl} (hx : ledger.descriptors[0]? = some x) :
    ledger.Creates x 2 d [0, 2] ledgerEntries := by
  have hfirst : ledger.Creates x 2 d [0] (ledger.afterCreation 4 0) :=
    World.Creates.refl.concat 8 hx (by decide +kernel) (by decide +kernel)
  have hsame : (ledger.afterCreation 4 0).descriptors = ledger.descriptors := rfl
  exact hfirst.concat 8 (hsame ▸ hx) (by decide +kernel) (by decide +kernel)

theorem ledger_offers {w : World} {o : ObjectId} {p : PropertyDecl} {v : Value}
    (hs : w.schema = ledger.schema) (ho : o ∈ [0, 2]) (hp : p = ledgerMemo ∨ p = ledgerAmount)
    (hv : v.isLiteral = true) : w.Offers .attributes (.cls 1) [0, 2] ⟨o, p, v⟩ := by
  have hF : ledger.schema.class? 0 = some (Nullable.decl "Ledger.Memo" .text true) := rfl
  have hm : ledger.schema.valueMember? (.cls 0) (.scalar .text) =
      some (Nullable.member .text true) := by decide +kernel
  refine ⟨ho, ?_, ?_, ?_, .of_isLiteral hv⟩
  · rw [hs]
    rcases hp with rfl | rfl
    · exact ⟨.cls 1, .tail _ (.head _)⟩
    · exact ⟨.cls 1, .tail _ (.tail _ (.head _))⟩
  · rcases hp with rfl | rfl <;> rfl
  · rw [hs]
    rcases hp with rfl | rfl
    · have hfirst : Provider.attributes.overrides (.cls 1) ledgerMemo = [] ++ .cls 0 :: [] := rfl
      exact .wrapped hF (.replaced hfirst (fun _ hu => nomatch hu) hm)
    · exact .direct (.declared rfl)

/-- A text that is written to an entry. -/
def ledgerText (o : ObjectId) (text : String) : Assignment := ⟨o, ledgerMemo, .scalar (.text text)⟩

/-- What is written to the entries: a text to each, and then nothing to the amount of the first, which
is refused. -/
def ledgerLog : List (Assignment × Except Halt Unit) :=
  [(ledgerText 0 "ink", .ok ()), (ledgerText 2 "wax", .ok ()),
    (⟨0, ledgerAmount, .null⟩, .error (.fault (.nullReference "null cannot be stored as i32")))]

theorem ledger_writes : ∃ w, ledgerEntries.Writes .attributes (.cls 1) [0, 2] ledgerLog w := by
  have h₁ : ledgerEntries.Writes .attributes (.cls 1) [0, 2] [(ledgerText 0 "ink", .ok ())]
      (ledgerEntries.afterWrite (ledgerText 0 "ink")) :=
    World.Writes.refl.concat (ledger_offers rfl (by decide) (.inl rfl) rfl) (by decide +kernel)
  have h₂ := h₁.concat (a := ledgerText 2 "wax") (r := .ok ())
    (ledger_offers rfl (by decide) (.inl rfl) rfl) (by decide +kernel)
  exact ⟨_, h₂.concat (ledger_offers rfl (by decide) (.inr rfl) rfl) (by decide +kernel)⟩

/-- The first entry has the text that was written to it. -/
theorem round_trip_ledger : ∃ x d w, ledger.descriptors[0]? = some x ∧
    ledger.Creates x 2 d [0, 2] ledgerEntries ∧
    ledgerEntries.Writes .attributes (.cls 1) [0, 2] ledgerLog w ∧
    ∀ depth, Run.getProperty (depth + 2) 0 "Memo" w = (.ok (.scalar (.text "ink")), w) := by
  obtain ⟨registry, x, hr, hc, hx, hs, hproduct⟩ := exists_published (w := ledger) (r := 0)
    (t := .cls 1) (e := 0) (p := .cls 2) rfl rfl
  have hprovider : (ledger.registries[0]?).map Registry.provider = some .attributes := rfl
  rw [hr] at hprovider
  obtain ⟨d, hd⟩ : ∃ d, ledger.schema.class? 2 = some d := ⟨_, rfl⟩
  have hcreates := ledger_creates (d := d) hx
  obtain ⟨w, hwrites⟩ := ledger_writes
  rw [← Option.some.inj hprovider] at hwrites
  obtain ⟨-, -, hreads⟩ :=
    World.round_trip ledger_arises hr hc hx hs hproduct hd hcreates hwrites
  obtain ⟨w₁, u, -, hsame, hread⟩ := hreads [] _ _ rfl fun b hb hok hat => by
    rcases List.mem_pair.mp hb with rfl | rfl
    · cases hat.1
    · cases hok
  obtain rfl := hsame.eq_of_isLiteral rfl
  rw [Option.some.inj hprovider] at hwrites
  exact ⟨x, d, w, hx, hcreates, hwrites, hread⟩

/-- Drafts of an abstract class with a property of its own that gives what another one holds. -/
def mirrorDrafts : List ClassDraft :=
  [{ name := "Mirror.Name", isAbstract := true
     members := [.property { World.forestProperty (.scalar .text) with name := "First" },
       .property
         { name := "Full", type := .scalar .text
           getter := some (.body (.routine [.give (.property "First")])) },
       .defaultConstructor] }]

/-- The world in which `Mirror.Name` has been implemented. -/
def mirror : World := asked mirrorDrafts (.cls 0)

/-- Drafts of a nullable wrapper, and of an abstract class whose constructor empties the slot of a
property that is kept in such a wrapper. -/
def husk : World :=
  let wipes : MemberDraft :=
    .constructor { params := [], isPublic := true, body := .routine [.setField "_Memo" (.value .null)] }
  asked [Nullable.draft "Husk.Memo" .text true,
    { name := "Husk.Entry", isAbstract := true, members := [.property ledgerMemo, wipes] }] (.cls 1)

/-- The world in which a lamp has been implemented: a light with a property that is kept in another
light, the one that a constructor is given as a parameter. -/
def lamp : World :=
  let takes : MemberDraft :=
    .constructor
      { params := [.carrier], isPublic := true
        body := .routine [.setField "_Glow" (.parameter 0 0)] }
  asked
    [{ name := "Lamp.Light", isAbstract := true
       members := [.property { World.forestProperty (.scalar .text) with name := "Value" },
         .defaultConstructor] },
     { name := "Lamp.Lamp", base := some (.cls 0), isAbstract := true
       members := [.property { World.forestProperty (.scalar .text) with
           name := "Glow", attributes := [.mapType (.cls 0)] },
         .defaultConstructor, takes] }] (.cls 1)

/-- A write can change what is read from another property, if that is read by a body of a user. It can
fail although its value may be stored, if a body of a user has taken the wrapper away. And it can change
what is read from another instance without any such body, if a constructor of a user has put the instance
that is written to in the place of a wrapper. -/
theorem round_trip_not_always :
    (∃ x w w', mirror.descriptors[0]? = some x ∧ x.isSynthesized = true ∧
      (∀ depth, Run.create (depth + 4) x none mirror = (.ok (.created 0), w)) ∧
      (∀ depth, Run.getProperty (depth + 2) 0 "Full" w = (.ok .null, w)) ∧
      (∀ depth, Run.setProperty (depth + 2) 0 "First" (.scalar (.text "Ada")) w = (.ok (), w')) ∧
      ∀ depth, Run.getProperty (depth + 2) 0 "Full" w' = (.ok (.scalar (.text "Ada")), w')) ∧
    (∃ x w, husk.descriptors[0]? = some x ∧ x.isSynthesized = true ∧
      (∀ depth, Run.create (depth + 4) x none husk = (.ok (.created 0), w)) ∧
      w.schema.cast w.heap (.scalar (.text "Ada")) (.scalar .text) = .ok (.scalar (.text "Ada")) ∧
      ∀ depth, Run.setProperty (depth + 2) 0 "Memo" (.scalar (.text "Ada")) w =
        (.error (.fault (.nullReference "cannot access 'Value' of null")), w)) ∧
    ∃ x w w₁ w₂, lamp.descriptors[1]? = some x ∧ x.isSynthesized = true ∧
      Run.create 4 x none lamp = (.ok (.created 0), w) ∧
      Run.create 4 x (some 0) w.offered = (.ok (.created 2), w₁) ∧
      (Run.getProperty 2 2 "Glow" w₁).1 = .ok .null ∧
      Run.setProperty 2 0 "Value" (.scalar (.text "dim")) w₁ = (.ok (), w₂) ∧
      (Run.getProperty 2 2 "Glow" w₂).1 = .ok (.scalar (.text "dim")) := by
  refine ⟨⟨_, _, _, rfl, rfl, fun _ => rfl, fun _ => rfl, fun _ => rfl, fun _ => rfl⟩,
    ⟨_, _, rfl, rfl, fun _ => rfl, rfl, fun _ => rfl⟩, ?_⟩
  obtain ⟨x, hx⟩ : ∃ x, lamp.descriptors[1]? = some x := Option.isSome_iff_exists.mp (by decide +kernel)
  have hlamp : (lamp.descriptors[1]?).all (fun x =>
      let w := (Run.create 4 x none lamp).2
      let w₁ := (Run.create 4 x (some 0) w.offered).2
      let w₂ := (Run.setProperty 2 0 "Value" (.scalar (.text "dim")) w₁).2
      x.isSynthesized && decide ((Run.create 4 x none lamp).1 = .ok (.created 0)) &&
        decide ((Run.create 4 x (some 0) w.offered).1 = .ok (.created 2)) &&
        decide ((Run.getProperty 2 2 "Glow" w₁).1 = .ok .null) &&
        decide ((Run.setProperty 2 0 "Value" (.scalar (.text "dim")) w₁).1 = .ok ()) &&
        decide ((Run.getProperty 2 2 "Glow" w₂).1 = .ok (.scalar (.text "dim")))) = true := by
    decide +kernel
  simp only [hx, Option.all_some, Bool.and_eq_true, decide_eq_true_eq] at hlamp
  obtain ⟨⟨⟨⟨⟨hs, hfirst⟩, hsecond⟩, hbefore⟩, hwrite⟩, hafter⟩ := hlamp
  exact ⟨x, _, _, _, hx, hs, Prod.ext hfirst rfl, Prod.ext hsecond rfl, hbefore, Prod.ext hwrite rfl,
    hafter⟩

end Scene

end RecordForge
