import SchemaDialects.Model

/-!
# Equality of schemas is an equivalence

`==` on metadata calls the two zeros one number and is otherwise equality of the parts, so it is no
lawful equality. On metadata, attributes, entities, relations and types it is reflexive,
symmetric and transitive.
-/

namespace SchemaDialects

-- ---------------------------------------------------------------------------
-- Numbers and metadata
-- ---------------------------------------------------------------------------

theorem Binary64.equal_iff {x y : Binary64} :
    x.equal y = true ↔ (x.significand = 0 ∧ y.significand = 0) ∨ x = y := by
  simp [equal]

namespace Json

mutual

theorem equal_refl : ∀ v : Json, equal v v = true
  | .null => rfl
  | .bool _ | .int _ | .str _ => by simp [equal]
  | .float _ => by simp [equal, Binary64.equal_iff]
  | .arr items => by simpa [equal] using equalItems_refl items
  | .obj members => by simpa [equal] using equalMembers_refl members

theorem equalItems_refl : ∀ items : List Json, equalItems items items = true
  | [] => rfl
  | v :: items => by simp [equalItems, equal_refl v, equalItems_refl items]

theorem equalMembers_refl : ∀ members : List (String × Json), equalMembers members members = true
  | [] => rfl
  | (k, v) :: members => by simp [equalMembers, equal_refl v, equalMembers_refl members]

end

mutual

theorem equal_symm : ∀ {a b : Json}, equal a b = true → equal b a = true
  | .null, b, h => by cases b <;> simp_all [equal]
  | .bool _, b, h => by cases b <;> simp_all [equal]
  | .int _, b, h => by cases b <;> simp_all [equal]
  | .str _, b, h => by cases b <;> simp_all [equal]
  | .float x, b, h => by
    cases b <;> simp only [equal, Bool.false_eq_true, Binary64.equal_iff] at h ⊢
    exact h.imp And.symm Eq.symm
  | .arr items, b, h => by
    cases b <;> simp only [equal, Bool.false_eq_true] at h ⊢
    exact equalItems_symm h
  | .obj members, b, h => by
    cases b <;> simp only [equal, Bool.false_eq_true] at h ⊢
    exact equalMembers_symm h

theorem equalItems_symm : ∀ {as bs : List Json}, equalItems as bs = true → equalItems bs as = true
  | [], [], _ => rfl
  | a :: as, b :: bs, h => by
    simp only [equalItems, Bool.and_eq_true] at h ⊢
    exact ⟨equal_symm h.1, equalItems_symm h.2⟩

theorem equalMembers_symm : ∀ {as bs : List (String × Json)},
    equalMembers as bs = true → equalMembers bs as = true
  | [], [], _ => rfl
  | (k, a) :: as, (l, b) :: bs, h => by
    simp only [equalMembers, Bool.and_eq_true, beq_iff_eq] at h ⊢
    exact ⟨⟨h.1.1.symm, equal_symm h.1.2⟩, equalMembers_symm h.2⟩

end

mutual

theorem equal_trans : ∀ {a b c : Json}, equal a b = true → equal b c = true → equal a c = true
  | .null, b, c, h, h' => by cases b <;> cases c <;> simp_all [equal]
  | .bool _, b, c, h, h' => by cases b <;> cases c <;> simp_all [equal]
  | .int _, b, c, h, h' => by cases b <;> cases c <;> simp_all [equal]
  | .str _, b, c, h, h' => by cases b <;> cases c <;> simp_all [equal]
  | .float x, b, c, h, h' => by
    cases b <;> simp only [equal, Bool.false_eq_true] at h
    cases c <;> simp only [equal, Bool.false_eq_true] at h' ⊢
    rw [Binary64.equal_iff] at h h' ⊢
    rcases h with ⟨hx, hy⟩ | rfl
    · rcases h' with ⟨-, hz⟩ | rfl
      · exact .inl ⟨hx, hz⟩
      · exact .inl ⟨hx, hy⟩
    · exact h'
  | .arr items, b, c, h, h' => by
    cases b <;> simp only [equal, Bool.false_eq_true] at h
    cases c <;> simp only [equal, Bool.false_eq_true] at h' ⊢
    exact equalItems_trans h h'
  | .obj members, b, c, h, h' => by
    cases b <;> simp only [equal, Bool.false_eq_true] at h
    cases c <;> simp only [equal, Bool.false_eq_true] at h' ⊢
    exact equalMembers_trans h h'

theorem equalItems_trans : ∀ {as bs cs : List Json},
    equalItems as bs = true → equalItems bs cs = true → equalItems as cs = true
  | [], [], [], _, _ => rfl
  | a :: as, b :: bs, c :: cs, h, h' => by
    simp only [equalItems, Bool.and_eq_true] at h h' ⊢
    exact ⟨equal_trans h.1 h'.1, equalItems_trans h.2 h'.2⟩

theorem equalMembers_trans : ∀ {as bs cs : List (String × Json)},
    equalMembers as bs = true → equalMembers bs cs = true → equalMembers as cs = true
  | [], [], [], _, _ => rfl
  | (k, a) :: as, (l, b) :: bs, (m, c) :: cs, h, h' => by
    simp only [equalMembers, Bool.and_eq_true, beq_iff_eq] at h h' ⊢
    exact ⟨⟨h.1.1.trans h'.1.1, equal_trans h.1.2 h'.1.2⟩, equalMembers_trans h.2 h'.2⟩

end

end Json

@[simp] theorem sameExtra_refl (a : Json.Extra) : sameExtra a a = true := Json.equalMembers_refl a

theorem sameExtra_symm (h : sameExtra a b = true) : sameExtra b a = true :=
  Json.equalMembers_symm h

theorem sameExtra_trans (h : sameExtra a b = true) (h' : sameExtra b c = true) :
    sameExtra a c = true :=
  Json.equalMembers_trans h h'

-- ---------------------------------------------------------------------------
-- Attributes
-- ---------------------------------------------------------------------------

mutual

theorem Attribute.same_refl : ∀ a : Attribute, a.same a = true
  | ⟨_, _, _, _, _, nested, _, _⟩ => by simp [Attribute.same, sameAttributes_refl nested]

theorem sameAttributes_refl : ∀ as : List Attribute, sameAttributes as as = true
  | [] => rfl
  | a :: as => by simp [sameAttributes, a.same_refl, sameAttributes_refl as]

end

mutual

theorem Attribute.same_symm : ∀ {a b : Attribute}, a.same b = true → b.same a = true
  | ⟨_, _, _, _, _, nested, _, _⟩, ⟨_, _, _, _, _, nested', _, _⟩, h => by
    simp only [Attribute.same, Bool.and_eq_true, beq_iff_eq] at h ⊢
    obtain ⟨⟨⟨⟨⟨⟨⟨rfl, rfl⟩, rfl⟩, rfl⟩, rfl⟩, hn⟩, rfl⟩, he⟩ := h
    simp [sameAttributes_symm hn, sameExtra_symm he]

theorem sameAttributes_symm : ∀ {as bs : List Attribute},
    sameAttributes as bs = true → sameAttributes bs as = true
  | [], [], _ => rfl
  | a :: as, b :: bs, h => by
    simp only [sameAttributes, Bool.and_eq_true] at h ⊢
    exact ⟨Attribute.same_symm h.1, sameAttributes_symm h.2⟩

end

mutual

theorem Attribute.same_trans : ∀ {a b c : Attribute},
    a.same b = true → b.same c = true → a.same c = true
  | ⟨_, _, _, _, _, _, _, _⟩, ⟨_, _, _, _, _, _, _, _⟩, ⟨_, _, _, _, _, _, _, _⟩, h, h' => by
    simp only [Attribute.same, Bool.and_eq_true, beq_iff_eq] at h h' ⊢
    obtain ⟨⟨⟨⟨⟨⟨⟨rfl, rfl⟩, rfl⟩, rfl⟩, rfl⟩, hn⟩, rfl⟩, he⟩ := h
    obtain ⟨⟨⟨⟨⟨⟨⟨rfl, rfl⟩, rfl⟩, rfl⟩, rfl⟩, hn'⟩, rfl⟩, he'⟩ := h'
    simp [sameAttributes_trans hn hn', sameExtra_trans he he']

theorem sameAttributes_trans : ∀ {as bs cs : List Attribute},
    sameAttributes as bs = true → sameAttributes bs cs = true → sameAttributes as cs = true
  | [], [], [], _, _ => rfl
  | a :: as, b :: bs, c :: cs, h, h' => by
    simp only [sameAttributes, Bool.and_eq_true] at h h' ⊢
    exact ⟨Attribute.same_trans h.1 h'.1, sameAttributes_trans h.2 h'.2⟩

end

instance : EquivBEq Attribute where
  rfl := Attribute.same_refl _
  symm := Attribute.same_symm
  trans := Attribute.same_trans

-- ---------------------------------------------------------------------------
-- Entities, relations and types
-- ---------------------------------------------------------------------------

theorem Entity.same_iff {a b : Entity} : (a == b) = true ↔
    a.space = b.space ∧ a.name = b.name ∧ sameAttributes a.attrs b.attrs = true ∧
      a.primaryKey = b.primaryKey ∧ a.indexes = b.indexes ∧ a.checks = b.checks ∧ a.doc = b.doc ∧
      sameExtra a.stats b.stats = true ∧ sameExtra a.extra b.extra = true := by
  show a.same b = true ↔ _
  simp [Entity.same, and_assoc]

instance : EquivBEq Entity where
  rfl := by simp [Entity.same_iff, sameAttributes_refl]
  symm h := by
    obtain ⟨hs, hn, ha, hk, hi, hc, hd, hst, he⟩ := Entity.same_iff.mp h
    exact Entity.same_iff.mpr ⟨hs.symm, hn.symm, sameAttributes_symm ha, hk.symm, hi.symm, hc.symm,
      hd.symm, sameExtra_symm hst, sameExtra_symm he⟩
  trans h h' := by
    obtain ⟨hs, hn, ha, hk, hi, hc, hd, hst, he⟩ := Entity.same_iff.mp h
    obtain ⟨hs', hn', ha', hk', hi', hc', hd', hst', he'⟩ := Entity.same_iff.mp h'
    exact Entity.same_iff.mpr ⟨hs.trans hs', hn.trans hn', sameAttributes_trans ha ha',
      hk.trans hk', hi.trans hi', hc.trans hc', hd.trans hd', sameExtra_trans hst hst',
      sameExtra_trans he he'⟩

theorem Relation.same_iff {a b : Relation} : (a == b) = true ↔
    a.name = b.name ∧ a.source = b.source ∧ a.target = b.target ∧ a.onDelete = b.onDelete ∧
      a.onUpdate = b.onUpdate ∧ a.doc = b.doc ∧ sameExtra a.extra b.extra = true := by
  show a.same b = true ↔ _
  simp [Relation.same, and_assoc]

instance : EquivBEq Relation where
  rfl := by simp [Relation.same_iff]
  symm h := by
    obtain ⟨hn, hs, ht, hd, hu, hdoc, he⟩ := Relation.same_iff.mp h
    exact Relation.same_iff.mpr ⟨hn.symm, hs.symm, ht.symm, hd.symm, hu.symm, hdoc.symm,
      sameExtra_symm he⟩
  trans h h' := by
    obtain ⟨hn, hs, ht, hd, hu, hdoc, he⟩ := Relation.same_iff.mp h
    obtain ⟨hn', hs', ht', hd', hu', hdoc', he'⟩ := Relation.same_iff.mp h'
    exact Relation.same_iff.mpr ⟨hn.trans hn', hs.trans hs', ht.trans ht', hd.trans hd',
      hu.trans hu', hdoc.trans hdoc', sameExtra_trans he he'⟩

theorem NamedType.same_iff {a b : NamedType} : (a == b) = true ↔
    a.space = b.space ∧ a.name = b.name ∧ a.values = b.values ∧ a.definition = b.definition ∧
      a.doc = b.doc ∧ sameExtra a.extra b.extra = true := by
  show a.same b = true ↔ _
  simp [NamedType.same, and_assoc]

instance : EquivBEq NamedType where
  rfl := by simp [NamedType.same_iff]
  symm h := by
    obtain ⟨hs, hn, hv, hdef, hd, he⟩ := NamedType.same_iff.mp h
    exact NamedType.same_iff.mpr ⟨hs.symm, hn.symm, hv.symm, hdef.symm, hd.symm, sameExtra_symm he⟩
  trans h h' := by
    obtain ⟨hs, hn, hv, hdef, hd, he⟩ := NamedType.same_iff.mp h
    obtain ⟨hs', hn', hv', hdef', hd', he'⟩ := NamedType.same_iff.mp h'
    exact NamedType.same_iff.mpr ⟨hs.trans hs', hn.trans hn', hv.trans hv', hdef.trans hdef',
      hd.trans hd', sameExtra_trans he he'⟩

end SchemaDialects
