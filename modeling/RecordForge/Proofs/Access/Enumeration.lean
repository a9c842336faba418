import RecordForge.Proofs.Layout.ValueMembers

/-!
# The listing of public properties, and the search for one

Synthesis and the choice of value members go through a listing of the public properties of a class. An
access to a property, and a mapper, search for its name. Both look at the declarations from the most derived
one on. The search takes the first declaration of the name, whatever its visibility
(`Schema.findProperty?_eq_some_iff`). The listing leaves out what is not public before it drops names that
are there already, so it takes the first public one (`Schema.mem_publicProperties_iff`).

The two agree wherever the declaration that is found is public. A declaration that is not public hides those
above it from the search, but not from the listing (`Schema.listing_and_search`).
-/

namespace RecordForge

namespace Schema

variable {s : Schema} {t : Ty} {name : String} {x y : Ty × PropertyDecl} {α : Type}

/-- The declarations of properties at and above a type, the most derived ones first. -/
def declarations (s : Schema) (t : Ty) : List (Ty × PropertyDecl) :=
  (s.lineage t).flatMap fun (a, d) => d.properties.map fun p => (a, p)

/-- Of the declarations of its name that are of a sort, this one is the most derived. -/
def Leads (s : Schema) (t : Ty) (sort : PropertyDecl → Bool) (x : Ty × PropertyDecl) : Prop :=
  sort x.2 = true ∧ ∃ before after, s.declarations t = before ++ x :: after ∧
    ∀ y ∈ before, y.2.name = x.2.name → sort y.2 = false

/-! ## The search -/

theorem findProperty?_eq (s : Schema) (t : Ty) (name : String) :
    s.findProperty? t name = (s.declarations t).find? fun q => q.2.name == name := by
  rw [findProperty?, declarations, List.find?_flatMap]
  refine congrArg (fun f => (s.lineage t).findSome? f) (funext ?_)
  rintro ⟨a, d⟩
  rw [List.find?_map]
  rfl

/-- The first declaration of a sort that a search for a name meets is the leading one of that name. -/
theorem find?_declarations_eq_some_iff {sort : PropertyDecl → Bool} :
    (s.declarations t).find? (fun q => sort q.2 && q.2.name == name) = some x ↔
      s.Leads t sort x ∧ x.2.name = name := by
  rw [List.find?_eq_some_iff_append, Bool.and_eq_true, beq_iff_eq, Leads]
  constructor
  · rintro ⟨⟨hsort, rfl⟩, before, after, hsplit, hbefore⟩
    refine ⟨⟨hsort, before, after, hsplit, fun y hy hname => ?_⟩, rfl⟩
    simpa [hname] using hbefore y hy
  · rintro ⟨⟨hsort, before, after, hsplit, hbefore⟩, rfl⟩
    refine ⟨⟨hsort, rfl⟩, before, after, hsplit, fun y hy => ?_⟩
    by_cases hname : y.2.name = x.2.name
    · simp [hbefore y hy hname]
    · simp [hname]

/-- **The search** for a name finds its most derived declaration. -/
theorem findProperty?_eq_some_iff : s.findProperty? t name = some x ↔
    s.Leads t (fun _ => true) x ∧ x.2.name = name := by
  rw [findProperty?_eq, ← find?_declarations_eq_some_iff]
  simp only [Bool.true_and]

/-- Dispatch begins with the declaration that is found: it ends there if the declaration has the
accessor. -/
theorem accessor?_of_findProperty? {part : PropertyDecl → Option (Accessor α)} {accessor : Accessor α}
    (h : s.findProperty? t name = some x) (hpart : part x.2 = some accessor) :
    s.accessor? part t name = some accessor := by
  obtain ⟨before, ⟨a, d⟩, after, hlineage, hfound, hbefore⟩ := List.findSome?_eq_some_iff.mp h
  obtain ⟨p, hp, rfl⟩ := Option.map_eq_some_iff.mp hfound
  refine List.findSome?_eq_some_iff.mpr ⟨before, (a, d), after, hlineage, ?_, fun ⟨b, e⟩ hb => ?_⟩
  · dsimp only
    rw [hp]
    exact hpart
  · have hnone := Option.map_eq_none_iff.mp (hbefore (b, e) hb)
    dsimp only
    rw [hnone]
    rfl

/-! ## The listing -/

/-- The declarations that are kept are those that a search meets first. -/
theorem find?_foldl_addProperty (entries found : List (Ty × PropertyDecl)) :
    (entries.foldl addProperty found).find? (fun q => q.2.name == name) =
      (found ++ entries).find? fun q => q.2.name == name := by
  induction entries generalizing found with
  | nil => rw [List.foldl_nil, List.append_nil]
  | cons e entries ih =>
    rw [List.foldl_cons, ih, addProperty]
    split
    · next hany =>
      -- a later declaration of a name that is there already is not met
      obtain ⟨q, hq, hname⟩ := List.any_eq_true.mp hany
      rw [List.find?_append, List.find?_append, List.find?_cons]
      cases he : e.2.name == name with
      | false => rfl
      | true =>
        obtain ⟨z, hz⟩ : ∃ z, found.find? (fun q => q.2.name == name) = some z := by
          refine Option.isSome_iff_exists.mp (List.find?_isSome.mpr ⟨q, hq, ?_⟩)
          exact beq_iff_eq.mpr ((eq_of_beq hname).trans (eq_of_beq he))
        rw [hz]
        rfl
    · rw [List.append_assoc]
      rfl

/-- Of each name the listing has what a search among the public declarations finds. -/
theorem find?_publicProperties (s : Schema) (t : Ty) (name : String) :
    (s.publicProperties t).find? (fun q => q.2.name == name) =
      (s.declarations t).find? fun q => q.2.isPublic && q.2.name == name := by
  have hfilter : ((s.lineage t).flatMap fun (a, d) =>
      (d.properties.filter PropertyDecl.isPublic).map fun p => (a, p)) =
        (s.declarations t).filter fun q => q.2.isPublic := by
    rw [declarations, List.filter_flatMap]
    refine congrArg (fun f => (s.lineage t).flatMap f) (funext ?_)
    rintro ⟨a, d⟩
    rw [List.filter_map]
    rfl
  rw [publicProperties, hfilter, find?_foldl_addProperty, List.nil_append, List.find?_filter]
  simp only [Bool.decide_and, Bool.decide_eq_true]

/-- **The listing** has of each name the most derived declaration that is public. -/
theorem mem_publicProperties_iff :
    x ∈ s.publicProperties t ↔ s.Leads t PropertyDecl.isPublic x := by
  have hfind : (s.publicProperties t).find? (fun q => q.2.name == x.2.name) = some x ↔
      s.Leads t PropertyDecl.isPublic x := by
    rw [find?_publicProperties, find?_declarations_eq_some_iff]
    exact and_iff_left rfl
  rw [← hfind]
  exact ⟨fun hx => find?_of_nodup (s.nodup_publicProperties t) hx, List.mem_of_find?_eq_some⟩

/-! ## Both -/

/-- What leads all declarations of its name leads those of each sort that it is of. -/
theorem Leads.of_sort {sort : PropertyDecl → Bool} (h : s.Leads t (fun _ => true) x)
    (hsort : sort x.2 = true) : s.Leads t sort x := by
  obtain ⟨-, before, after, hsplit, hbefore⟩ := h
  exact ⟨hsort, before, after, hsplit, fun y hy hname => nomatch hbefore y hy hname⟩

/-- One declaration of each name leads those of a sort. -/
theorem Leads.unique {sort : PropertyDecl → Bool} (hx : s.Leads t sort x) (hy : s.Leads t sort y)
    (hname : x.2.name = y.2.name) : x = y := by
  have hx' := find?_declarations_eq_some_iff.mpr ⟨hx, hname⟩
  exact Option.some.inj (hx'.symm.trans (find?_declarations_eq_some_iff.mpr ⟨hy, rfl⟩))

/-- Every other declaration of the name comes after the leading one. -/
theorem Leads.sublist (h : s.Leads t (fun _ => true) x) (hy : y ∈ s.declarations t)
    (hname : y.2.name = x.2.name) (hne : x ≠ y) : [x, y].Sublist (s.declarations t) := by
  obtain ⟨-, before, after, hsplit, hbefore⟩ := h
  rw [hsplit] at hy ⊢
  rcases List.mem_append.mp hy with hy | hy
  · exact nomatch hbefore y hy hname
  · rcases List.mem_cons.mp hy with rfl | hy
    · exact absurd rfl hne
    · have hafter : [x, y].Sublist (x :: after) := (List.singleton_sublist.mpr hy).cons_cons x
      exact hafter.trans (List.sublist_append_right ..)

/-- What is listed is one of the declarations. -/
theorem Leads.mem {sort : PropertyDecl → Bool} (h : s.Leads t sort x) : x ∈ s.declarations t := by
  obtain ⟨-, before, after, hsplit, -⟩ := h
  exact hsplit ▸ List.mem_append_right _ List.mem_cons_self

/-- For a property that is listed a declaration of its name is found: the same, if that is public. -/
theorem exists_found (hx : x ∈ s.publicProperties t) : ∃ y, s.findProperty? t x.2.name = some y ∧
    s.Leads t (fun _ => true) y ∧ y.2.name = x.2.name ∧ (y.2.isPublic = true → y = x) := by
  have hlisted := mem_publicProperties_iff.mp hx
  obtain ⟨y, hy⟩ : ∃ y, s.findProperty? t x.2.name = some y := by
    rw [findProperty?_eq]
    exact Option.isSome_iff_exists.mp
      (List.find?_isSome.mpr ⟨x, hlisted.mem, beq_self_eq_true _⟩)
  obtain ⟨hleads, hname⟩ := findProperty?_eq_some_iff.mp hy
  exact ⟨y, hy, hleads, hname, fun hpublic => (hleads.of_sort hpublic).unique hlisted hname⟩

/-- What is found is listed if it is public. -/
theorem mem_publicProperties_of_found (hy : s.findProperty? t name = some y)
    (hpublic : y.2.isPublic = true) : y ∈ s.publicProperties t := by
  obtain ⟨hleads, -⟩ := findProperty?_eq_some_iff.mp hy
  exact mem_publicProperties_iff.mpr (hleads.of_sort hpublic)

/-- **The listing and the search.** For each property that is listed a declaration of its name is found,
from which dispatch begins. It is the one that is listed exactly if it is public; otherwise it hides that
from the search and is itself not listed. A property that is found and is public is listed once, and so is
its name. -/
theorem listing_and_search (s : Schema) (t : Ty) :
    (∀ x ∈ s.publicProperties t, ∃ y, s.findProperty? t x.2.name = some y ∧
      (y = x ↔ y.2.isPublic = true) ∧
      (y.2.isPublic = false →
        y ∉ s.publicProperties t ∧ [y, x].Sublist (s.declarations t)) ∧
      ∀ {α : Type} (part : PropertyDecl → Option (Accessor α)) {accessor},
        part y.2 = some accessor → s.accessor? part t x.2.name = some accessor) ∧
    ∀ {name y}, s.findProperty? t name = some y → y.2.isPublic = true →
      y ∈ s.publicProperties t ∧ ((s.publicProperties t).map fun q => q.2.name).count name = 1 := by
  constructor
  · intro x hx
    have hlisted := mem_publicProperties_iff.mp hx
    obtain ⟨y, hy, hleads, hname, hsame⟩ := exists_found hx
    refine ⟨y, hy, ⟨?_, hsame⟩, ?_, fun part accessor => accessor?_of_findProperty? hy⟩
    · rintro rfl
      exact hlisted.1
    · intro hprivate
      have hunlisted : y ∉ s.publicProperties t := by
        intro hmem
        have hpublic := (mem_publicProperties_iff.mp hmem).1
        rw [hprivate] at hpublic
        cases hpublic
      exact ⟨hunlisted, hleads.sublist hlisted.mem hname.symm fun he => hunlisted (he ▸ hx)⟩
  · intro name y hy hpublic
    obtain ⟨-, rfl⟩ := findProperty?_eq_some_iff.mp hy
    have hlisted := mem_publicProperties_of_found hy hpublic
    exact ⟨hlisted, List.count_eq_one_of_mem (s.nodup_publicProperties t)
      (List.mem_map_of_mem (f := fun q : Ty × PropertyDecl => q.2.name) hlisted)⟩

end Schema

namespace Scene

/-- Drafts of a class with two public properties, and of a class below that declares both once more: one
of them as public, the other one not. -/
def wardrobeDrafts : List ClassDraft :=
  [{ name := "Wardrobe.Coat"
     members := [.auto "Size" (.scalar .text), .auto "Colour" (.scalar .text), .defaultConstructor] },
   { name := "Wardrobe.Cape", base := some (.cls 0)
     members := [
       .field "Lining" (.scalar .text) true,
       .property { name := "Size", type := .scalar .text, getter := some (.body (.slot 0)) },
       .property { name := "Colour", type := .scalar .text, isPublic := false
                   getter := some (.body (.slot 2)) },
       .defaultConstructor] }]

/-- The world in which the classes have been declared. -/
def wardrobe : World := { schema := addDrafts {} wardrobeDrafts }

theorem wardrobe_reached : wardrobe.Reached :=
  declare_reached .refl (by decide +kernel) (by decide +kernel)

/-- The size of a cape is listed once. Its colour is found where it is not public, so that declaration is
not listed. -/
theorem listing_and_search_wardrobe : ∃ size colour,
    wardrobe.schema.findProperty? (.cls 1) "Size" = some (.cls 1, size) ∧
      ((wardrobe.schema.publicProperties (.cls 1)).map fun q => q.2.name).count "Size" = 1 ∧
      wardrobe.schema.findProperty? (.cls 1) "Colour" = some (.cls 1, colour) ∧
      (.cls 1, colour) ∉ wardrobe.schema.publicProperties (.cls 1) := by
  obtain ⟨hlisted, hfound⟩ := Schema.listing_and_search wardrobe.schema (.cls 1)
  obtain ⟨size, hsize, hpublic⟩ : ∃ size,
      wardrobe.schema.findProperty? (.cls 1) "Size" = some (.cls 1, size) ∧ size.isPublic = true :=
    ⟨_, rfl, rfl⟩
  obtain ⟨a, p, hcoat, hname⟩ : ∃ a p,
      (a, p) ∈ wardrobe.schema.publicProperties (.cls 1) ∧ p.name = "Colour" :=
    ⟨.cls 0, _, List.mem_cons_of_mem _ (List.mem_singleton.mpr rfl), rfl⟩
  obtain ⟨colour, hcolour, hprivate⟩ : ∃ colour,
      wardrobe.schema.findProperty? (.cls 1) "Colour" = some (.cls 1, colour) ∧
        colour.isPublic = false := ⟨_, rfl, rfl⟩
  obtain ⟨y, hy, -, hhides, -⟩ := hlisted _ hcoat
  obtain rfl := Option.some.inj (hy.symm.trans ((congrArg _ hname).trans hcolour))
  exact ⟨size, colour, hsize, (hfound hsize hpublic).2, hcolour, (hhides hprivate).1⟩

/-- So the listing and the search do not agree. The colour of a coat is listed for a cape, while what is
found, and read, is the colour that the cape declares itself. -/
theorem cape_lists_colour_of_coat : wardrobe.Reached ∧
    ¬(∀ x ∈ wardrobe.schema.publicProperties (.cls 1),
      wardrobe.schema.findProperty? (.cls 1) x.2.name = some x) ∧
    ((wardrobe.schema.publicProperties (.cls 1)).map fun x => (x.1, x.2.name)) =
      [(.cls 1, "Size"), (.cls 0, "Colour")] ∧
    (wardrobe.schema.findProperty? (.cls 1) "Colour").map (fun x => (x.1, x.2.isPublic)) =
      some (.cls 1, false) ∧
    wardrobe.schema.getterFor (.cls 0) "Colour" = .ok (.slot 1) ∧
    wardrobe.schema.getterFor (.cls 1) "Colour" = .ok (.slot 2) := by
  refine ⟨wardrobe_reached, fun hagree => ?_, rfl, rfl, rfl, rfl⟩
  obtain ⟨p, hcoat, hname⟩ : ∃ p,
      (.cls 0, p) ∈ wardrobe.schema.publicProperties (.cls 1) ∧ p.name = "Colour" :=
    ⟨_, List.mem_cons_of_mem _ (List.mem_singleton.mpr rfl), rfl⟩
  have hclass := congrArg (Option.map Prod.fst) (hagree _ hcoat)
  rw [hname] at hclass
  cases Option.some.inj hclass

end Scene

end RecordForge
