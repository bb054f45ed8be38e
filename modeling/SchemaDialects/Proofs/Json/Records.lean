import SchemaDialects.Json.Decode
import SchemaDialects.Json.Encode
import SchemaDialects.Proofs.Json.Trees

/-!
# What is encoded is decoded

`Decodes d v a` says that `d` reads `a` from every tree that shows `v`. For a record, `Gets` says the same
of members given by name: it has one rule for each way in which records are composed, and `Gets.decodes`
turns it into a statement about objects.
-/

namespace SchemaDialects.Json

-- ---------------------------------------------------------------------------
-- Values
-- ---------------------------------------------------------------------------

/-- Whatever tree shows the value, it is decoded as `a`. -/
def Decodes (d : Decoder α) (v : Json) (a : α) : Prop :=
  ∀ node, Shows v node → d node = .ok a

theorem decodes_string (s : String) : Decodes Decoder.string (.str s) s
  | _, .str => rfl

theorem decodes_bool (b : Bool) : Decodes Decoder.bool (.bool b) b
  | _, .bool => rfl

/-- A value that may be null is decoded as it is, unless it is null. -/
theorem Decodes.option (h : Decodes d v a) (hnull : v ≠ .null) : Decodes (Decoder.option d) v (some a) := by
  intro node hshows
  have hvalue : Decoder.option d node = some <$> d node := by
    cases hshows with
    | null => exact absurd rfl hnull
    | _ => rfl
  rw [hvalue, h node hshows]
  rfl

theorem mapM_of_decodes {encode : α → Json} {nodes : List Node} (h : ∀ x ∈ xs, Decodes d (encode x) x)
    (hshows : List.Forall₂ Shows (xs.map encode) nodes) : nodes.mapM d = .ok xs := by
  induction xs generalizing nodes with
  | nil =>
    cases hshows
    rfl
  | cons x xs ih =>
    obtain ⟨hx, hxs⟩ := List.forall_mem_cons.mp h
    obtain _ | ⟨hnode, hnodes⟩ := hshows
    simp only [List.mapM_cons, hx _ hnode, ih hxs hnodes]
    rfl

/-- A list is decoded if each of its items is. -/
theorem decodes_list {encode : α → Json} (h : ∀ x ∈ xs, Decodes d (encode x) x) :
    Decodes (Decoder.list d) (.arr (xs.map encode)) xs
  | _, .arr hitems => by
    simp only [Decoder.list, mapM_of_decodes h hitems]
    rfl

theorem decodes_extra (h : Ordered (.obj extra)) : Decodes Decoder.extra (.obj extra) extra
  | _, .obj hmembers => by
    simp only [Decoder.extra, readMembers_shows hmembers, sortedMembers_of_ordered h.2]
    exact congrArg Except.ok (sortMembers_of_pairwise h.1)

theorem decodes_variant {known : List (String × α)} (h : known.lookup name = some a) :
    Decodes (Decoder.variant known) (.str name) a
  | _, .str => by simp [Decoder.variant, Decoder.alternative?, h, Except.mapError]

-- ---------------------------------------------------------------------------
-- Members
-- ---------------------------------------------------------------------------

/-- The values of the members called `name`. -/
def named (name : String) (members : List (String × β)) : List β :=
  members.filterMap fun m => if m.1 = name then some m.2 else none

@[simp] theorem named_nil : named name ([] : List (String × β)) = [] := rfl

theorem named_cons : named name ((k, v) :: members) =
    if k = name then v :: named name members else named name members := by
  by_cases h : k = name <;> simp [named, h]

/-- Leaving out members of other names changes nothing. -/
theorem named_filter {members : List (String × β)} {p : String → Bool} (h : p name = true) :
    named name (members.filter fun m => p m.1) = named name members := by
  induction members with
  | nil => rfl
  | cons m members ih =>
    obtain ⟨k, v⟩ := m
    by_cases hk : k = name
    · rw [List.filter_cons_of_pos (by rwa [hk]), named_cons, named_cons, ih]
    · rw [named_cons, if_neg hk, List.filter_cons]
      split
      · rw [named_cons, if_neg hk, ih]
      · exact ih

/-- The values that a record has under a name. -/
def valuesIn (members : List Member) (name : String) : List Json :=
  named name (members.filterMap id)

@[simp] theorem valuesIn_nil : valuesIn [] name = [] := rfl

@[simp] theorem valuesIn_none : valuesIn (none :: members) name = valuesIn members name := rfl

@[simp] theorem valuesIn_some : valuesIn (some (k, v) :: members) name =
    if k = name then v :: valuesIn members name else valuesIn members name :=
  named_cons

@[simp] theorem valuesIn_always : valuesIn (always k v :: members) name =
    if k = name then v :: valuesIn members name else valuesIn members name :=
  named_cons

@[simp] theorem valuesIn_ifSome {encode : α → Json} : valuesIn (ifSome k encode x :: members) name =
    if k = name then (x.map encode).toList ++ valuesIn members name else valuesIn members name := by
  cases x <;> simp [ifSome]

@[simp] theorem valuesIn_ifTrue : valuesIn (ifTrue k b :: members) name =
    if k = name then (if b then [.bool true] else []) ++ valuesIn members name
    else valuesIn members name := by
  cases b <;> simp [ifTrue]

@[simp] theorem valuesIn_ifMany {encode : α → Json} : valuesIn (ifMany k encode xs :: members) name =
    if k = name then (if xs.isEmpty then [] else [.arr (xs.map encode)]) ++ valuesIn members name
    else valuesIn members name := by
  cases xs <;> simp [ifMany]

@[simp] theorem valuesIn_ifExtra : valuesIn (ifExtra k extra :: members) name =
    if k = name then (if extra.isEmpty then [] else [.obj extra]) ++ valuesIn members name
    else valuesIn members name := by
  cases extra <;> simp [ifExtra]

-- ---------------------------------------------------------------------------
-- Records
-- ---------------------------------------------------------------------------

/-- Whether a field has the name of a member. -/
def Slot.known : Slot σ → Bool
  | .unknown => false
  | _ => true

namespace Record

/-- Whether a field of its own has the name. -/
def claims (r : Record α) (name : String) : Bool :=
  (r.slot r.start name).known

/-- From members that show, under each of `names`, the values found there, `r` gets `a`. The other members
do not matter. -/
structure Gets (r : Record α) (names : List String) (found : String → List Json) (a : α) : Prop where
  unknown_iff : ∀ s name, r.slot s name = .unknown ↔ r.claims name = false
  mem_of_claims : ∀ name, r.claims name = true → name ∈ names
  keep_eq : r.keeps = false → ∀ s name node, r.keep s name node = s
  runs : names.Nodup → ∀ members,
    (∀ name ∈ names, List.Forall₂ Shows (found name) (named name members)) →
      ∃ s, r.ofKept r.start members = .ok s ∧ r.finish s = .ok a

theorem claims_eq_false {r : Record α} : r.claims name = false ↔ r.slot r.start name = .unknown := by
  unfold claims
  cases r.slot r.start name <;> simp [Slot.known]

/-- A member is kept, or read by the field that has its name. -/
theorem ofKept_cons {r : Record α} {s s' : r.State} : r.ofKept s ((k, node) :: members) = .ok s' ↔
    (r.slot s k = .unknown ∧ r.ofKept (r.keep s k node) members = .ok s') ∨
    ∃ read s₁, r.slot s k = .value read ∧ read node = .ok s₁ ∧ r.ofKept s₁ members = .ok s' := by
  rw [ofKept]
  cases r.slot s k with
  | unknown => simp
  | duplicate => simp
  | value read => cases hread : read node <;> simp [hread]

/-- What required fields and those with a value of their own have in common. -/
def field (name : String) (d : Decoder α) (finish : Option α → Except Cause β)
    (take : String → Nat → List Node → Close → Except Fault (β × List Node)) : Record β :=
  { required name d with finish, take }

section
variable {d : Decoder α} {found : String → List Json} {finish : Option α → Except Cause β}
  {take : String → Nat → List Node → Close → Except Fault (β × List Node)}

theorem slot_field (s : Option α) :
    (field name d finish take).slot s k = .unknown ↔ k ≠ name := by
  show (if k = name then if s.isSome then Slot.duplicate else .value fun node => some <$> d node
    else .unknown) = .unknown ↔ _
  by_cases hk : k = name <;> cases s <;> simp [hk]

theorem ofKept_field_absent (h : named name members = []) (s : Option α) :
    (field name d finish take).ofKept s members = .ok s := by
  induction members with
  | nil => rfl
  | cons m members ih =>
    obtain ⟨k, node⟩ := m
    rw [named_cons] at h
    have hk : k ≠ name := by
      rintro rfl
      simp at h
    exact ofKept_cons.mpr (.inl ⟨if_neg hk, ih (by rwa [if_neg hk] at h)⟩)

theorem ofKept_field_given (h : named name members = [node]) (hnode : d node = .ok a) :
    (field name d finish take).ofKept none members = .ok (some a) := by
  induction members with
  | nil => simp at h
  | cons m members ih =>
    obtain ⟨k, other⟩ := m
    rw [named_cons] at h
    by_cases hk : k = name
    · rw [if_pos hk, List.cons.injEq] at h
      obtain ⟨rfl, hrest⟩ := h
      have hread : some <$> d other = .ok (some a) := by
        rw [hnode]
        rfl
      exact ofKept_cons.mpr (.inr ⟨_, _, if_pos hk, hread, ofKept_field_absent hrest _⟩)
    · exact ofKept_cons.mpr (.inl ⟨if_neg hk, ih (by rwa [if_neg hk] at h)⟩)

/-- What a field that is given at most once holds in the end. -/
inductive Value (d : Decoder α) : List Json → Option α → Prop
  | absent : Value d [] none
  | given (h : Decodes d v a) : Value d [v] (some a)

theorem Gets.field (hfound : found name = values) (hvalue : Value d values o) (hfinish : finish o = .ok b) :
    Gets (field name d finish take) [name] found b where
  unknown_iff s k := (slot_field s).trans ((slot_field none).symm.trans claims_eq_false.symm)
  mem_of_claims k hk := by
    by_contra hne
    have hfalse : (Record.field name d finish take).claims k = false :=
      claims_eq_false.mpr ((slot_field none).mpr (List.mem_singleton.not.mp hne))
    simp [hk] at hfalse
  keep_eq _ _ _ _ := rfl
  runs _ members hmembers := by
    have hnamed := hmembers name (List.mem_singleton_self name)
    rw [hfound] at hnamed
    generalize hnodes : named name members = nodes at hnamed
    cases hvalue with
    | absent =>
      cases hnamed
      exact ⟨none, ofKept_field_absent hnodes none, hfinish⟩
    | given hv =>
      obtain _ | ⟨hnode, hnil⟩ := hnamed
      cases hnil
      exact ⟨some _, ofKept_field_given hnodes (hv _ hnode), hfinish⟩

end

theorem ofKept_map {f : α → β} {s s' : r.State} (h : r.ofKept s members = .ok s') :
    (Record.map f r).ofKept s members = .ok s' := by
  induction members generalizing s with
  | nil => exact h
  | cons m members ih =>
    obtain ⟨hslot, hrest⟩ | ⟨read, s₁, hslot, hread, hrest⟩ := ofKept_cons.mp h
    · exact ofKept_cons.mpr (.inl ⟨hslot, ih hrest⟩)
    · exact ofKept_cons.mpr (.inr ⟨read, s₁, hslot, hread, ih hrest⟩)

theorem Gets.map (f : α → β) (h : Gets r names found a) : Gets (f <$> r) names found (f a) where
  unknown_iff := h.unknown_iff
  mem_of_claims := h.mem_of_claims
  keep_eq := h.keep_eq
  runs hnames members hmembers := by
    obtain ⟨s, hs, hfinish⟩ := h.runs hnames members hmembers
    refine ⟨s, ofKept_map hs, ?_⟩
    show f <$> r.finish s = _
    rw [hfinish]
    rfl

theorem slot_seq {f : Record (α → β)} {r : Record α} {s : f.State} {t : r.State} :
    (Record.seq f r).slot (s, t) k = .unknown ↔ f.slot s k = .unknown ∧ r.slot t k = .unknown := by
  simp only [Record.seq]
  cases f.slot s k <;> cases r.slot t k <;> simp

/-- Each of two records is given the members that the other one does not claim. -/
theorem ofKept_seq {f : Record (α → β)} {r : Record α} {s s' : f.State} {t t' : r.State}
    (hf : ∀ s k, f.slot s k = .unknown ↔ f.claims k = false)
    (hr : ∀ t k, r.slot t k = .unknown ↔ r.claims k = false)
    (hapart : ∀ k, f.claims k = true → r.claims k = false)
    (hs : f.ofKept s (members.filter fun m => !r.claims m.1) = .ok s')
    (ht : r.ofKept t (members.filter fun m => !f.claims m.1) = .ok t') :
    (Record.seq f r).ofKept (s, t) members = .ok (s', t') := by
  induction members generalizing s t with
  | nil =>
    obtain rfl : s = s' := by simpa [ofKept] using hs
    obtain rfl : t = t' := by simpa [ofKept] using ht
    rfl
  | cons m members ih =>
    obtain ⟨k, node⟩ := m
    cases hfk : f.claims k with
    | true =>
      rw [List.filter_cons_of_pos (by simp [hapart k hfk])] at hs
      rw [List.filter_cons_of_neg (by simp [hfk])] at ht
      obtain ⟨hslot, -⟩ | ⟨read, s₁, hslot, hread, hrest⟩ := ofKept_cons.mp hs
      · exact absurd ((hf s k).mp hslot) (by simp [hfk])
      · have hpair : (Record.seq f r).slot (s, t) k = .value fun node => (·, t) <$> read node := by
          simp only [Record.seq, hslot]
        exact ofKept_cons.mpr (.inr ⟨_, (s₁, t), hpair, by rw [hread]; rfl, ih hrest ht⟩)
    | false =>
      have hfslot := (hf s k).mpr hfk
      rw [List.filter_cons_of_pos (by simp [hfk])] at ht
      cases hrk : r.claims k with
      | true =>
        rw [List.filter_cons_of_neg (by simp [hrk])] at hs
        obtain ⟨hslot, -⟩ | ⟨read, t₁, hslot, hread, hrest⟩ := ofKept_cons.mp ht
        · exact absurd ((hr t k).mp hslot) (by simp [hrk])
        · have hpair : (Record.seq f r).slot (s, t) k = .value fun node => (s, ·) <$> read node := by
            simp only [Record.seq, hfslot, hslot]
          exact ofKept_cons.mpr (.inr ⟨_, (s, t₁), hpair, by rw [hread]; rfl, ih hs hrest⟩)
      | false =>
        have hrslot := (hr t k).mpr hrk
        rw [List.filter_cons_of_pos (by simp [hrk])] at hs
        obtain ⟨-, hs⟩ | ⟨_, _, hslot, -⟩ := ofKept_cons.mp hs
        · obtain ⟨-, ht⟩ | ⟨_, _, hslot, -⟩ := ofKept_cons.mp ht
          · exact ofKept_cons.mpr (.inl ⟨slot_seq.mpr ⟨hfslot, hrslot⟩, ih hs ht⟩)
          · simp [hrslot] at hslot
        · simp [hfslot] at hslot

theorem Gets.seq {f : Record (α → β)} (hf : Gets f names found g) (hr : Gets r names' found a) :
    Gets (f <*> r) (names ++ names') found (g a) where
  unknown_iff s k := by
    refine slot_seq.trans (Iff.trans ?_ claims_eq_false.symm)
    exact Iff.trans (and_congr ((hf.unknown_iff _ k).trans claims_eq_false)
      ((hr.unknown_iff _ k).trans claims_eq_false)) slot_seq.symm
  mem_of_claims k hk := by
    by_contra hmem
    obtain ⟨hmemf, hmemr⟩ := not_or.mp (List.mem_append.not.mp hmem)
    have hfk := claims_eq_false.mp (Bool.eq_false_iff.mpr (mt (hf.mem_of_claims k) hmemf))
    have hrk := claims_eq_false.mp (Bool.eq_false_iff.mpr (mt (hr.mem_of_claims k) hmemr))
    exact absurd hk (Bool.eq_false_iff.mp (claims_eq_false.mpr (slot_seq.mpr ⟨hfk, hrk⟩)))
  keep_eq hkeeps s k node := by
    obtain ⟨hfkeeps, hrkeeps⟩ := Bool.or_eq_false_iff.mp hkeeps
    exact Prod.ext (hf.keep_eq hfkeeps _ k node) (hr.keep_eq hrkeeps _ k node)
  runs hnames members hmembers := by
    obtain ⟨hfnames, hrnames, hdisjoint⟩ := List.nodup_append.mp hnames
    have hfirst : ∀ name ∈ names, List.Forall₂ Shows (found name)
        (named name (members.filter fun m => !r.claims m.1)) := fun name hname => by
      have hfree : (!r.claims name) = true := by
        simpa using mt (hr.mem_of_claims name) (hdisjoint name hname name · rfl)
      rw [named_filter (p := fun k => !r.claims k) hfree]
      exact hmembers name (List.mem_append_left _ hname)
    have hsecond : ∀ name ∈ names', List.Forall₂ Shows (found name)
        (named name (members.filter fun m => !f.claims m.1)) := fun name hname => by
      have hfree : (!f.claims name) = true := by
        simpa using mt (hf.mem_of_claims name) fun hmem => hdisjoint name hmem name hname rfl
      rw [named_filter (p := fun k => !f.claims k) hfree]
      exact hmembers name (List.mem_append_right _ hname)
    have hapart : ∀ k, f.claims k = true → r.claims k = false := fun k hk =>
      Bool.eq_false_iff.mpr (mt (hr.mem_of_claims k) (hdisjoint k (hf.mem_of_claims k hk) k · rfl))
    obtain ⟨s, hs, hfinish⟩ := hf.runs hfnames _ hfirst
    obtain ⟨t, ht, hfinish'⟩ := hr.runs hrnames _ hsecond
    refine ⟨(s, t), ofKept_seq hf.unknown_iff hr.unknown_iff hapart hs ht, ?_⟩
    show (do return (← f.finish s) (← r.finish t)) = _
    rw [hfinish, hfinish']
    rfl

theorem Gets.inlined (h : Gets r names found a) : Gets r.inlined names found a where
  unknown_iff _ _ := ⟨fun _ => rfl, fun _ => rfl⟩
  mem_of_claims _ hk := by simp [claims, Slot.known, Record.inlined] at hk
  keep_eq hkeeps := by simp [Record.inlined] at hkeeps
  runs hnames members hmembers := by
    have hkept : ∀ (members done : List (String × Node)),
        r.inlined.ofKept done members = .ok (done ++ members) := by
      intro members
      induction members with
      | nil => exact fun done => congrArg Except.ok (List.append_nil done).symm
      | cons m members ih =>
        intro done
        exact ofKept_cons.mpr (.inl ⟨rfl, (ih _).trans (congrArg Except.ok (List.append_cons done m members).symm)⟩)
    obtain ⟨s, hs, hfinish⟩ := h.runs hnames members hmembers
    refine ⟨members, hkept members [], ?_⟩
    show (do r.finish (← r.ofKept r.start members)) = _
    rw [hs]
    exact hfinish

section
variable {r : Record α} {s s' : r.State} {read : Node → Except Fault r.State} {key : Key} {name : String}
  (hkey : key.name = .ok name)

include hkey

/-- A member with a field of its own is read as the field. -/
theorem ofMembers_value (hslot : r.slot s name = .value read) (hread : read node = .ok s') :
    r.ofMembers s ((key, node) :: nodes) = r.ofMembers s' nodes := by
  rw [ofMembers, hkey]
  simp only [bind, Except.bind, hslot, hread]

/-- A member without a field is kept, or passed over where none is. -/
theorem ofMembers_unknown (hslot : r.slot s name = .unknown) (hread : node.read = .ok value)
    (hskip : node.skip = .ok ()) (hkeep : r.keeps = false → r.keep s name node = s) :
    r.ofMembers s ((key, node) :: nodes) = r.ofMembers (r.keep s name node) nodes := by
  rw [ofMembers, hkey]
  cases hkeeps : r.keeps with
  | true => simp only [bind, Except.bind, hslot, hread, if_true]
  | false => simp [bind, Except.bind, hslot, hskip, hkeep hkeeps]

end

/-- The members of an object are read as members that were kept are, if they have no fault. -/
theorem ofMembers_shows {r : Record α} (hkeep : r.keeps = false → ∀ s name node, r.keep s name node = s) :
    ∀ {ms : List (String × Json)} {nodes : List (Key × Node)}, ShowsMembers ms nodes →
    ∃ members : List (String × Node), (∀ name, List.Forall₂ Shows (named name ms) (named name members)) ∧
      ∀ s s', r.ofKept s members = .ok s' → r.ofMembers s nodes = .ok s'
  | [], _, .nil => ⟨[], fun _ => .nil, fun _ _ h => by simpa [ofKept, ofMembers] using h⟩
  | (k, v) :: ms, (key, node) :: nodes, .cons hkey hv hms => by
    obtain ⟨members, hnamed, hrun⟩ := ofMembers_shows hkeep hms
    refine ⟨(k, node) :: members, fun name => ?_, fun s s' h => ?_⟩
    · rw [named_cons, named_cons]
      split
      · exact .cons hv (hnamed name)
      · exact hnamed name
    · obtain ⟨hslot, hrest⟩ | ⟨read, s₁, hslot, hread, hrest⟩ := ofKept_cons.mp h
      · rw [ofMembers_unknown hkey hslot (read_shows hv) (skip_shows hv) fun hkeeps => hkeep hkeeps s k node]
        exact hrun _ _ hrest
      · rw [ofMembers_value hkey hslot hread]
        exact hrun _ _ hrest

theorem decode_record {r : Record α} {s : r.State} (hs : r.ofMembers r.start nodes = .ok s)
    (hfinish : r.finish s = .ok a) :
    r.decode title (.record place false nodes (.closed stop) turn) = .ok a := by
  show (do let s ← r.ofMembers r.start nodes; (r.finish s).mapError (⟨·, stop⟩)) = _
  rw [hs]
  show (r.finish s).mapError _ = _
  rw [hfinish]
  rfl

/-- A record reads objects if it gets its fields from their members. -/
theorem Gets.decodes (h : Gets r names (valuesIn members) a)
    (hnames : names.Nodup) : Decodes (r.decode title) (Json.record members) a
  | _, .obj hmembers => by
    obtain ⟨kept, hnamed, hrun⟩ := ofMembers_shows h.keep_eq hmembers
    obtain ⟨s, hs, hfinish⟩ := h.runs hnames kept fun name _ => hnamed name
    exact decode_record (hrun _ _ hs) hfinish

-- ---------------------------------------------------------------------------
-- Fields
-- ---------------------------------------------------------------------------

section
variable {found : String → List Json}

theorem Gets.required (h : found name = [v]) (hd : Decodes d v a) : Gets (Record.required name d) [name] found a :=
  Gets.field h (.given hd) rfl

theorem Gets.optional {encode : α → Json} {x : Option α} (h : found name = (x.map encode).toList)
    (hd : ∀ a ∈ x, Decodes (Decoder.option d) (encode a) (some a)) :
    Gets (Record.optional name d) [name] found x := by
  cases x with
  | none => exact Gets.field h .absent rfl
  | some a => exact Gets.field h (.given (hd a rfl)) rfl

/-- A text that may be absent. -/
theorem Gets.text {x : Option String} (h : found name = (x.map Json.str).toList) :
    Gets (Record.optional name Decoder.string) [name] found x :=
  .optional h fun s _ => Decodes.option (decodes_string s) Json.noConfusion

theorem Gets.flag (h : found name = if b then [.bool true] else []) :
    Gets (Record.defaulted name false Decoder.bool) [name] found b := by
  cases b with
  | false => exact Gets.field h .absent rfl
  | true => exact Gets.field h (.given (decodes_bool true)) rfl

theorem Gets.many {encode : α → Json} (h : found name = if xs.isEmpty then [] else [.arr (xs.map encode)])
    (hd : ∀ x ∈ xs, Decodes d (encode x) x) :
    Gets (Record.defaulted name [] (Decoder.list d)) [name] found xs := by
  cases xs with
  | nil => exact Gets.field h .absent rfl
  | cons x xs => exact Gets.field h (.given (decodes_list hd)) rfl

theorem Gets.extra {members : Extra} (h : found name = if members.isEmpty then [] else [.obj members])
    (hordered : Ordered (.obj members)) :
    Gets (Record.defaulted name [] Decoder.extra) [name] found members := by
  cases members with
  | nil => exact Gets.field h .absent rfl
  | cons m members => exact Gets.field h (.given (decodes_extra hordered)) rfl

end

end Record

end SchemaDialects.Json
