import SchemaDialects.Json.Node
import SchemaDialects.Proofs.Json.Scanning

/-!
# Printed values are read into their trees

A text is read into a tree by a machine with a stack of open lists and records. `Shows` relates a tree to
the value it holds, wherever its parts stand. `build_prettyChars`: from any stack that has room for it, a
printed value leads to a tree that shows it, put in the place that waits for a value.
-/

namespace SchemaDialects.Json

-- ---------------------------------------------------------------------------
-- Values
-- ---------------------------------------------------------------------------

mutual

/-- The number of lists and objects inside each other. -/
def depth : Json → Nat
  | .arr items => depthItems items + 1
  | .obj members => depthMembers members + 1
  | _ => 0

def depthItems : List Json → Nat
  | [] => 0
  | v :: vs => max (depth v) (depthItems vs)

def depthMembers : List (String × Json) → Nat
  | [] => 0
  | (_, v) :: ms => max (depth v) (depthMembers ms)

end

mutual

/-- A value that text can hold as it is: no number of it is a double, and every integer fits a machine
word of its sign. -/
def Exact : Json → Prop
  | .int n => -(2 ^ 63) ≤ n ∧ n < 2 ^ 64
  | .float _ => False
  | .arr items => ExactItems items
  | .obj members => ExactMembers members
  | _ => True

def ExactItems : List Json → Prop
  | [] => True
  | v :: vs => Exact v ∧ ExactItems vs

def ExactMembers : List (String × Json) → Prop
  | [] => True
  | (_, v) :: ms => Exact v ∧ ExactMembers ms

end

mutual

instance decidableExact : (v : Json) → Decidable (Exact v)
  | .null | .bool _ | .str _ => .isTrue trivial
  | .int _ => inferInstanceAs (Decidable (_ ∧ _))
  | .float _ => .isFalse id
  | .arr items => decidableExactItems items
  | .obj members => decidableExactMembers members

instance decidableExactItems : (vs : List Json) → Decidable (ExactItems vs)
  | [] => .isTrue trivial
  | v :: vs =>
    haveI := decidableExact v
    haveI := decidableExactItems vs
    inferInstanceAs (Decidable (_ ∧ _))

instance decidableExactMembers : (ms : List (String × Json)) → Decidable (ExactMembers ms)
  | [] => .isTrue trivial
  | (_, v) :: ms =>
    haveI := decidableExact v
    haveI := decidableExactMembers ms
    inferInstanceAs (Decidable (_ ∧ _))

end

mutual

/-- The tree holds the value and has no fault. -/
inductive Shows : Json → Node → Prop
  | null : Shows .null (.scalar false start stop (.ok .null))
  | bool : Shows (.bool b) (.scalar false start stop (.ok (.bool b)))
  | int : Shows (.int n) (.scalar false start stop (.ok (.int n)))
  | str : Shows (.str s) (.scalar true start stop (.ok (.str s)))
  | arr (h : List.Forall₂ Shows items nodes) : Shows (.arr items) (.list start false nodes (.closed stop))
  | obj (h : ShowsMembers members nodes) :
    Shows (.obj members) (.record start false nodes (.closed stop) turn)

inductive ShowsMembers : List (String × Json) → List (Key × Node) → Prop
  | nil : ShowsMembers [] []
  | cons (hkey : key.name = .ok k) (hv : Shows v node) (h : ShowsMembers members nodes) :
    ShowsMembers ((k, v) :: members) ((key, node) :: nodes)

end

-- ---------------------------------------------------------------------------
-- One token
-- ---------------------------------------------------------------------------

/-- What becomes of a text after one of its tokens. -/
def Step.resume (ts : List Token) : Step → Document
  | .go stack await => build stack await ts
  | .whole node => ⟨node, tailFault ts⟩
  | .cut node => ⟨node, none⟩

theorem build_cons : build stack await (t :: ts) = (step stack await t).resume ts := by
  rw [build]
  cases step stack await t <;> rfl

/-- A value may come next. -/
def Await.TakesValue : Await → Prop
  | .value | .firstItem | .nextItem => True
  | _ => False

/-- A value begins here. -/
def Lexeme.BeginsValue : Lexeme → Prop
  | .beginList | .beginRecord | .text .. | .scalar .. => True
  | _ => False

theorem build_value (lexeme : Lexeme) (hawait : await.TakesValue) (hbegins : lexeme.BeginsValue) :
    build stack await (⟨m, lexeme⟩ :: ts) = (stepValue stack ⟨m, lexeme⟩).resume ts := by
  have hstep : step stack await ⟨m, lexeme⟩ = stepValue stack ⟨m, lexeme⟩ := by
    cases await <;> first | rfl | exact hawait.elim |
      (cases lexeme <;> first | rfl | exact hbegins.elim)
  rw [build_cons, hstep]

/-- The number of open lists and records. -/
def level : List Frame → Nat
  | [] => 0
  | frame :: _ => frame.depth + 1

theorem opened_eq : Frame.opened stack start parts = ⟨start, level stack, parts⟩ := by
  cases stack <;> rfl

/-- The innermost list ends, if not too many brackets are open. -/
theorem closeFrame_items (hroom : level stack < nestingLimit) (t : Token) :
    closeFrame (⟨start, level stack, .items done⟩ :: stack) t =
      complete stack (.list (some start) false done.reverse (.closed (some t.peek))) := by
  have hdeep : decide (nestingLimit ≤ level stack) = false := decide_eq_false (Nat.not_le.mpr hroom)
  simp only [closeFrame, Frame.node, hdeep]

theorem closeFrame_members (hroom : level stack < nestingLimit) (t : Token) :
    closeFrame (⟨start, level stack, .members done none turn⟩ :: stack) t =
      complete stack (.record (some start) false done.reverse (.closed (some t.peek)) turn) := by
  have hdeep : decide (nestingLimit ≤ level stack) = false := decide_eq_false (Nat.not_le.mpr hroom)
  simp only [closeFrame, Frame.node, hdeep]

theorem meet_members : meet (⟨start, n, .members done none turn⟩ :: stack) t =
    ⟨start, n, .members done none (turn.or (some t))⟩ :: stack := by
  cases turn <;> rfl

/-- Behind a printed name a value may come. -/
theorem build_name (hawait : await = .firstKey ∨ await = .nextKey) (start : Mark) (stack : List Frame)
    (done : List (Key × Node)) (turn : Option Token) (s : String) (m : Mark) (cs : List Char) :
    ∃ key m', key.name = .ok s ∧
      build (⟨start, level stack, .members done none turn⟩ :: stack) await
        (tokens m (string s ++ ':' :: ' ' :: cs)) =
      build (⟨start, level stack, .members done (some key) turn⟩ :: stack) .value (tokens m' cs) := by
  obtain ⟨stop, htext⟩ := tokens_string s m (':' :: ' ' :: cs)
  refine ⟨⟨.ok s, stop, stop⟩, (stop.after ':').after ' ', rfl, ?_⟩
  rw [htext, tokens_punctuation rfl, tokens_space rfl, build_cons]
  rcases hawait with rfl | rfl <;> simp only [step, Step.resume] <;> rw [build_cons] <;> rfl

-- ---------------------------------------------------------------------------
-- Brackets and separators
-- ---------------------------------------------------------------------------

section
variable {stack : List Frame} {start : Mark} {await : Await}

/-- What a bracket opens may begin on the next line. -/
theorem build_beginList (hawait : await.TakesValue) (m : Mark) (n : Nat) (cs : List Char) : ∃ m',
    build stack await (tokens m ('[' :: (newLine n ++ cs))) =
      build (⟨m, level stack, .items []⟩ :: stack) .firstItem (tokens m' cs) := by
  obtain ⟨m', hline⟩ := tokens_newLine n (m.after '[') cs
  refine ⟨m', ?_⟩
  rw [tokens_punctuation rfl, build_value .beginList hawait trivial, hline]
  simp only [stepValue, opened_eq, Step.resume]

theorem build_beginRecord (hawait : await.TakesValue) (m : Mark) (n : Nat) (cs : List Char) : ∃ m',
    build stack await (tokens m ('\x7b' :: (newLine n ++ cs))) =
      build (⟨m, level stack, .members [] none none⟩ :: stack) .firstKey (tokens m' cs) := by
  obtain ⟨m', hline⟩ := tokens_newLine n (m.after '\x7b') cs
  refine ⟨m', ?_⟩
  rw [tokens_punctuation rfl, build_value .beginRecord hawait trivial, hline]
  simp only [stepValue, opened_eq, Step.resume]

/-- Behind a comma the next item may come. -/
theorem build_nextItem (done : List Node) (m : Mark) (n : Nat) (cs : List Char) : ∃ m',
    build (⟨start, level stack, .items done⟩ :: stack) .separator (tokens m (',' :: (newLine n ++ cs))) =
      build (⟨start, level stack, .items done⟩ :: stack) .nextItem (tokens m' cs) := by
  obtain ⟨m', hline⟩ := tokens_newLine n (m.after ',') cs
  refine ⟨m', ?_⟩
  rw [tokens_punctuation rfl, build_cons]
  simp only [step, meet, Frame.meet, Parts.meet, Step.resume]
  rw [hline]

/-- The first token behind a member is kept. -/
theorem build_nextMember (done : List (Key × Node)) (turn : Option Token) (m : Mark) (n : Nat) (cs : List Char) :
    ∃ turn' m', build (⟨start, level stack, .members done none turn⟩ :: stack) .separator
        (tokens m (',' :: (newLine n ++ cs))) =
      build (⟨start, level stack, .members done none turn'⟩ :: stack) .nextKey (tokens m' cs) := by
  obtain ⟨m', hline⟩ := tokens_newLine n (m.after ',') cs
  refine ⟨turn.or (some ⟨m, .comma⟩), m', ?_⟩
  rw [tokens_punctuation rfl, build_cons]
  simp only [step, meet_members, Step.resume]
  rw [hline]

theorem build_endList (hroom : level stack < nestingLimit) (done : List Node) (m : Mark) (n : Nat)
    (rest : List Char) : ∃ stop m', build (⟨start, level stack, .items done⟩ :: stack) .separator
        (tokens m (newLine n ++ ']' :: rest)) =
      (complete stack (.list (some start) false done.reverse (.closed stop))).resume (tokens m' rest) := by
  obtain ⟨m', hline⟩ := tokens_newLine n m (']' :: rest)
  rw [hline, tokens_punctuation rfl, build_cons]
  exact ⟨_, _, congrArg _ (closeFrame_items hroom ⟨m', .endList⟩)⟩

theorem build_endRecord (hroom : level stack < nestingLimit) (done : List (Key × Node)) (turn : Option Token)
    (m : Mark) (n : Nat) (rest : List Char) : ∃ stop turn' m',
    build (⟨start, level stack, .members done none turn⟩ :: stack) .separator
        (tokens m (newLine n ++ '\x7d' :: rest)) =
      (complete stack (.record (some start) false done.reverse (.closed stop) turn')).resume (tokens m' rest) := by
  obtain ⟨m', hline⟩ := tokens_newLine n m ('\x7d' :: rest)
  rw [hline, tokens_punctuation rfl, build_cons]
  simp only [step, meet_members]
  exact ⟨_, _, _, congrArg _ (closeFrame_members hroom ⟨m', .endRecord⟩)⟩

/-- Brackets with nothing between them. -/
theorem build_emptyList (hawait : await.TakesValue) (hroom : level stack < nestingLimit) (m : Mark)
    (rest : List Char) : ∃ stop m', build stack await (tokens m ('[' :: ']' :: rest)) =
      (complete stack (.list (some m) false [] (.closed stop))).resume (tokens m' rest) := by
  rw [tokens_punctuation rfl, tokens_punctuation rfl, build_value .beginList hawait trivial]
  simp only [stepValue, opened_eq, Step.resume]
  rw [build_cons]
  exact ⟨_, _, congrArg _ (closeFrame_items hroom _)⟩

theorem build_emptyRecord (hawait : await.TakesValue) (hroom : level stack < nestingLimit) (m : Mark)
    (rest : List Char) : ∃ stop turn m', build stack await (tokens m ('\x7b' :: '\x7d' :: rest)) =
      (complete stack (.record (some m) false [] (.closed stop) turn)).resume (tokens m' rest) := by
  rw [tokens_punctuation rfl, tokens_punctuation rfl, build_value .beginRecord hawait trivial]
  simp only [stepValue, opened_eq, Step.resume]
  rw [build_cons]
  exact ⟨_, _, _, congrArg _ (closeFrame_members hroom _)⟩

/-- A value of one token. -/
theorem build_single {lexeme : Lexeme} {m stop : Mark} {cs rest : List Char} (hawait : await.TakesValue)
    (htokens : tokens m cs = ⟨m, lexeme⟩ :: tokens stop rest) (hbegins : lexeme.BeginsValue) :
    build stack await (tokens m cs) = (stepValue stack ⟨m, lexeme⟩).resume (tokens stop rest) := by
  rw [htokens, build_value lexeme hawait hbegins]

end

-- ---------------------------------------------------------------------------
-- A printed value
-- ---------------------------------------------------------------------------

theorem endsNumber_comma (cs : List Char) : EndsNumber (',' :: cs) := by
  simp [EndsNumber]

theorem endsNumber_newLine (depth : Nat) (cs : List Char) : EndsNumber (newLine depth ++ cs) := by
  simp [EndsNumber, newLine]

theorem endsNumber_prettyItems (vs : List Json) :
    EndsNumber (prettyItems n vs ++ (newLine outer ++ cs)) := by
  cases vs with
  | nil => exact endsNumber_newLine outer cs
  | cons v vs => exact endsNumber_comma _

theorem endsNumber_prettyMembers (ms : List (String × Json)) :
    EndsNumber (prettyMembers n ms ++ (newLine outer ++ cs)) := by
  cases ms with
  | nil => exact endsNumber_newLine outer cs
  | cons m ms => exact endsNumber_comma _

mutual

/-- A printed value is read into a tree that shows it, if so many brackets may be open. -/
theorem build_prettyChars : ∀ (v : Json) (n : Nat) (m : Mark) (stack : List Frame) (await : Await)
    {rest : List Char}, Exact v → level stack + depth v ≤ nestingLimit → await.TakesValue →
    EndsNumber rest →
    ∃ node m', Shows v node ∧
      build stack await (tokens m (prettyChars n v ++ rest)) = (complete stack node).resume (tokens m' rest)
  | .null, n, m, stack, await, rest, _, _, hawait, _ => by
    obtain ⟨stop, htokens⟩ : ∃ stop, tokens m (prettyChars n .null ++ rest) =
        ⟨m, .scalar stop (.ok .null)⟩ :: tokens stop rest := tokens_word (c := 'n') rfl fun _ => rfl
    exact ⟨_, stop, .null, build_single hawait htokens trivial⟩
  | .bool b, n, m, stack, await, rest, _, _, hawait, _ => by
    obtain ⟨stop, htokens⟩ : ∃ stop, tokens m (prettyChars n (.bool b) ++ rest) =
        ⟨m, .scalar stop (.ok (.bool b))⟩ :: tokens stop rest := by
      cases b with
      | true => exact tokens_word (c := 't') rfl fun _ => rfl
      | false => exact tokens_word (c := 'f') rfl fun _ => rfl
    exact ⟨_, stop, .bool, build_single hawait htokens trivial⟩
  | .int i, n, m, stack, await, rest, hexact, _, hawait, hrest => by
    obtain ⟨stop, htokens⟩ : ∃ stop, tokens m (prettyChars n (.int i) ++ rest) =
        ⟨m, .scalar stop (.ok (.int i))⟩ :: tokens stop rest := tokens_int hexact.1 hexact.2 m hrest
    exact ⟨_, stop, .int, build_single hawait htokens trivial⟩
  | .float _, _, _, _, _, _, hexact, _, _, _ => hexact.elim
  | .str s, n, m, stack, await, rest, _, _, hawait, _ => by
    obtain ⟨stop, htokens⟩ : ∃ stop, tokens m (prettyChars n (.str s) ++ rest) =
        ⟨m, .text stop (.ok s)⟩ :: tokens stop rest := tokens_string s m rest
    exact ⟨_, stop, .str, build_single hawait htokens trivial⟩
  | .arr [], n, m, stack, await, rest, _, hdepth, hawait, _ => by
    have hroom : level stack < nestingLimit := by simp [depth] at hdepth; omega
    obtain ⟨stop, m', hempty⟩ := build_emptyList hawait hroom m rest
    exact ⟨_, m', .arr .nil, hempty⟩
  | .arr (v :: vs), n, m, stack, await, rest, hexact, hdepth, hawait, hrest => by
    have hroom : level stack + 1 + depth v ≤ nestingLimit ∧ level stack + 1 + depthItems vs ≤ nestingLimit := by
      simp only [depth, depthItems] at hdepth
      omega
    have htext : prettyChars n (.arr (v :: vs)) ++ rest = '[' :: (newLine (n + 1) ++
        (prettyChars (n + 1) v ++ (prettyItems (n + 1) vs ++ (newLine n ++ ']' :: rest)))) := by
      simp [prettyChars]
    rw [htext]
    obtain ⟨m₁, hbegin⟩ := build_beginList hawait m (n + 1) _
    obtain ⟨node, m₂, hshows, hvalue⟩ := build_prettyChars v (n + 1) m₁
      (⟨m, level stack, .items []⟩ :: stack) .firstItem hexact.1 hroom.1 trivial (endsNumber_prettyItems vs)
    obtain ⟨nodes, stop, m₃, hitems, hlist⟩ :=
      build_prettyItems vs (n + 1) n m₂ m [node] hexact.2 hroom.2
    exact ⟨.list (some m) false (node :: nodes) (.closed stop), m₃, .arr (.cons hshows hitems),
      hbegin.trans (hvalue.trans hlist)⟩
  | .obj [], n, m, stack, await, rest, _, hdepth, hawait, _ => by
    have hroom : level stack < nestingLimit := by simp [depth] at hdepth; omega
    obtain ⟨stop, turn, m', hempty⟩ := build_emptyRecord hawait hroom m rest
    exact ⟨_, m', .obj .nil, hempty⟩
  | .obj ((k, v) :: ms), n, m, stack, await, rest, hexact, hdepth, hawait, hrest => by
    have hroom : level stack + 1 + depth v ≤ nestingLimit ∧ level stack + 1 + depthMembers ms ≤ nestingLimit := by
      simp only [depth, depthMembers] at hdepth
      omega
    have htext : prettyChars n (.obj ((k, v) :: ms)) ++ rest = '\x7b' :: (newLine (n + 1) ++ (string k ++
        ':' :: ' ' :: (prettyChars (n + 1) v ++ (prettyMembers (n + 1) ms ++ (newLine n ++ '\x7d' :: rest))))) := by
      simp [prettyChars]
    rw [htext]
    obtain ⟨m₁, hbegin⟩ := build_beginRecord hawait m (n + 1) _
    obtain ⟨key, m₂, hkey, hname⟩ := build_name (.inl rfl) m stack [] none k m₁ _
    obtain ⟨node, m₃, hshows, hvalue⟩ := build_prettyChars v (n + 1) m₂
      (⟨m, level stack, .members [] (some key) none⟩ :: stack) .value hexact.1 hroom.1 trivial
      (endsNumber_prettyMembers ms)
    obtain ⟨nodes, stop, turn, m₄, hmembers, hrecord⟩ :=
      build_prettyMembers ms (n + 1) n m₃ m [(key, node)] none hexact.2 hroom.2
    exact ⟨.record (some m) false ((key, node) :: nodes) (.closed stop) turn, m₄,
      .obj (.cons hkey hshows hmembers), hbegin.trans (hname.trans (hvalue.trans hrecord))⟩

/-- The items behind the first one, and the end of the list. -/
theorem build_prettyItems : ∀ (vs : List Json) (n outer : Nat) (m start : Mark) (done : List Node)
    {stack} {rest : List Char}, ExactItems vs → level stack + 1 + depthItems vs ≤ nestingLimit →
    ∃ nodes stop m', List.Forall₂ Shows vs nodes ∧
      build (⟨start, level stack, .items done⟩ :: stack) .separator
        (tokens m (prettyItems n vs ++ (newLine outer ++ ']' :: rest))) =
      (complete stack (.list (some start) false (done.reverse ++ nodes) (.closed stop))).resume
        (tokens m' rest)
  | [], n, outer, m, start, done, stack, rest, _, hdepth => by
    obtain ⟨stop, m', hend⟩ := build_endList (by omega : level stack < nestingLimit) done m outer rest
    exact ⟨[], stop, m', .nil, by rw [List.append_nil]; exact hend⟩
  | v :: vs, n, outer, m, start, done, stack, rest, hexact, hdepth => by
    have hroom : level stack + 1 + depth v ≤ nestingLimit ∧ level stack + 1 + depthItems vs ≤ nestingLimit := by
      simp only [depthItems] at hdepth
      omega
    have htext : prettyItems n (v :: vs) ++ (newLine outer ++ ']' :: rest) = ',' :: (newLine n ++
        (prettyChars n v ++ (prettyItems n vs ++ (newLine outer ++ ']' :: rest)))) := by
      simp [prettyItems]
    rw [htext]
    obtain ⟨m₁, hnext⟩ := build_nextItem done m n _
    obtain ⟨node, m₂, hshows, hvalue⟩ := build_prettyChars v n m₁
      (⟨start, level stack, .items done⟩ :: stack) .nextItem hexact.1 hroom.1 trivial (endsNumber_prettyItems vs)
    obtain ⟨nodes, stop, m₃, hitems, hlist⟩ :=
      build_prettyItems vs n outer m₂ start (node :: done) hexact.2 hroom.2
    rw [List.reverse_cons, List.append_assoc] at hlist
    exact ⟨node :: nodes, stop, m₃, .cons hshows hitems, hnext.trans (hvalue.trans hlist)⟩

/-- The members behind the first one, and the end of the object. -/
theorem build_prettyMembers : ∀ (ms : List (String × Json)) (n outer : Nat) (m start : Mark)
    (done : List (Key × Node)) (turn : Option Token)
    {stack} {rest : List Char}, ExactMembers ms → level stack + 1 + depthMembers ms ≤ nestingLimit →
    ∃ nodes stop turn' m', ShowsMembers ms nodes ∧
      build (⟨start, level stack, .members done none turn⟩ :: stack) .separator
        (tokens m (prettyMembers n ms ++ (newLine outer ++ '\x7d' :: rest))) =
      (complete stack (.record (some start) false (done.reverse ++ nodes) (.closed stop) turn')).resume
        (tokens m' rest)
  | [], n, outer, m, start, done, turn, stack, rest, _, hdepth => by
    obtain ⟨stop, turn', m', hend⟩ := build_endRecord (by omega : level stack < nestingLimit) done turn m outer rest
    exact ⟨[], stop, turn', m', .nil, by rw [List.append_nil]; exact hend⟩
  | (k, v) :: ms, n, outer, m, start, done, turn, stack, rest, hexact, hdepth => by
    have hroom : level stack + 1 + depth v ≤ nestingLimit ∧ level stack + 1 + depthMembers ms ≤ nestingLimit := by
      simp only [depthMembers] at hdepth
      omega
    have htext : prettyMembers n ((k, v) :: ms) ++ (newLine outer ++ '\x7d' :: rest) = ',' :: (newLine n ++
        (string k ++ ':' :: ' ' :: (prettyChars n v ++
          (prettyMembers n ms ++ (newLine outer ++ '\x7d' :: rest))))) := by
      simp [prettyMembers]
    rw [htext]
    obtain ⟨turn₁, m₁, hnext⟩ := build_nextMember done turn m n _
    obtain ⟨key, m₂, hkey, hname⟩ := build_name (.inr rfl) start stack done turn₁ k m₁ _
    obtain ⟨node, m₃, hshows, hvalue⟩ := build_prettyChars v n m₂
      (⟨start, level stack, .members done (some key) turn₁⟩ :: stack) .value hexact.1 hroom.1 trivial
      (endsNumber_prettyMembers ms)
    obtain ⟨nodes, stop, turn', m₄, hmembers, hrecord⟩ :=
      build_prettyMembers ms n outer m₃ start ((key, node) :: done) turn₁ hexact.2 hroom.2
    rw [List.reverse_cons, List.append_assoc] at hrecord
    exact ⟨(key, node) :: nodes, stop, turn', m₄, .cons hkey hshows hmembers,
      hnext.trans (hname.trans (hvalue.trans hrecord))⟩

end

/-- The tree of a printed value shows the value, and nothing stands behind it. -/
theorem ofText_pretty (hexact : Exact v) (hdepth : depth v ≤ nestingLimit) :
    ∃ node, Shows v node ∧ Document.ofText (pretty v ++ "\n") = ⟨node, none⟩ := by
  have hend : EndsNumber ['\n'] := endsNumber_newLine 0 []
  obtain ⟨node, m, hshows, hbuild⟩ := build_prettyChars v 0 {} [] .value hexact
    (by simpa [level] using hdepth) trivial hend
  have htext : (pretty v ++ "\n").toList = prettyChars 0 v ++ ['\n'] := by simp [pretty]
  refine ⟨node, hshows, ?_⟩
  rw [Document.ofText, htext, hbuild, tokens_space rfl, tokens]
  rfl

-- ---------------------------------------------------------------------------
-- Reading the tree
-- ---------------------------------------------------------------------------

mutual

/-- A tree is read as the value it shows, with the members of its objects in order. -/
theorem read_shows : ∀ {v : Json} {node : Node}, Shows v node → node.read = .ok v.sorted
  | .null, _, .null | .bool _, _, .bool | .int _, _, .int | .str _, _, .str => rfl
  | .arr items, _, .arr h => by
    simp only [Node.read, readItems_shows h, sorted]
    rfl
  | .obj members, _, .obj h => by
    simp only [Node.read, readMembers_shows h, sorted]
    rfl

theorem readItems_shows : ∀ {vs : List Json} {nodes : List Node}, List.Forall₂ Shows vs nodes →
    Node.readItems nodes = .ok (sortedItems vs)
  | [], _, .nil => rfl
  | v :: vs, _, .cons hv hvs => by
    simp only [Node.readItems, read_shows hv, readItems_shows hvs, sortedItems]
    rfl

theorem readMembers_shows : ∀ {ms : List (String × Json)} {nodes : List (Key × Node)},
    ShowsMembers ms nodes → Node.readMembers nodes = .ok (sortedMembers ms)
  | [], _, .nil => rfl
  | (k, v) :: ms, _, .cons hkey hv hms => by
    simp only [Node.readMembers, hkey, read_shows hv, readMembers_shows hms, sortedMembers]
    rfl

end

mutual

theorem skip_shows : ∀ {v : Json} {node : Node}, Shows v node → node.skip = .ok ()
  | .null, _, .null | .bool _, _, .bool | .int _, _, .int | .str _, _, .str => rfl
  | .arr items, _, .arr h => by
    simp only [Node.skip, skipItems_shows h]
    rfl
  | .obj members, _, .obj h => by
    simp only [Node.skip, skipMembers_shows h]
    rfl

theorem skipItems_shows : ∀ {vs : List Json} {nodes : List Node}, List.Forall₂ Shows vs nodes →
    Node.skipItems nodes = .ok ()
  | [], _, .nil => rfl
  | v :: vs, _, .cons hv hvs => by
    simp only [Node.skipItems, skip_shows hv, skipItems_shows hvs]
    rfl

theorem skipMembers_shows : ∀ {ms : List (String × Json)} {nodes : List (Key × Node)},
    ShowsMembers ms nodes → Node.skipMembers nodes = .ok ()
  | [], _, .nil => rfl
  | (k, v) :: ms, _, .cons hkey hv hms => by
    simp only [Node.skipMembers, skip_shows hv, skipMembers_shows hms]
    rfl

end

-- ---------------------------------------------------------------------------
-- Metadata
-- ---------------------------------------------------------------------------

mutual

/-- The members of every object are in ascending order of their names, each name once. -/
def Ordered : Json → Prop
  | .arr items => OrderedItems items
  | .obj members => members.Pairwise (·.1 < ·.1) ∧ OrderedMembers members
  | _ => True

def OrderedItems : List Json → Prop
  | [] => True
  | v :: vs => Ordered v ∧ OrderedItems vs

def OrderedMembers : List (String × Json) → Prop
  | [] => True
  | (_, v) :: ms => Ordered v ∧ OrderedMembers ms

end

mutual

/-- Whether the members are in order can be found out by looking. -/
instance decidableOrdered : (v : Json) → Decidable (Ordered v)
  | .null | .bool _ | .int _ | .float _ | .str _ => .isTrue trivial
  | .arr items => decidableOrderedItems items
  | .obj members => haveI := decidableOrderedMembers members; inferInstanceAs (Decidable (_ ∧ _))

instance decidableOrderedItems : (vs : List Json) → Decidable (OrderedItems vs)
  | [] => .isTrue trivial
  | v :: vs =>
    haveI := decidableOrdered v
    haveI := decidableOrderedItems vs
    inferInstanceAs (Decidable (_ ∧ _))

instance decidableOrderedMembers : (ms : List (String × Json)) → Decidable (OrderedMembers ms)
  | [] => .isTrue trivial
  | (_, v) :: ms =>
    haveI := decidableOrdered v
    haveI := decidableOrderedMembers ms
    inferInstanceAs (Decidable (_ ∧ _))

end

/-- A member behind all the others is put at the end. -/
theorem insertMember_last (h : ∀ m ∈ members, m.1 < k) :
    insertMember k v members = members ++ [(k, v)] := by
  induction members with
  | nil => rfl
  | cons m members ih =>
    obtain ⟨hm, hms⟩ := List.forall_mem_cons.mp h
    have hnot : ¬k < m.1 := String.lt_asymm hm
    have hne : k ≠ m.1 := (String.ne_of_lt hm).symm
    rw [insertMember, if_neg hnot, if_neg hne, ih hms]
    rfl

/-- Members in order stay as they are. -/
theorem sortMembers_of_pairwise (h : members.Pairwise (·.1 < ·.1)) : sortMembers members = members := by
  have hfold : ∀ (rest done : List (String × Json)), (done ++ rest).Pairwise (·.1 < ·.1) →
      rest.foldl (fun sorted m => insertMember m.1 m.2 sorted) done = done ++ rest := by
    intro rest
    induction rest with
    | nil => intro done _; exact (List.append_nil done).symm
    | cons m rest ih =>
      intro done h
      have hlast : ∀ d ∈ done, d.1 < m.1 := fun d hd =>
        (List.pairwise_append.mp h).2.2 d hd m List.mem_cons_self
      rw [List.foldl_cons, insertMember_last hlast, ih _ (by simpa using h)]
      simp
  exact hfold members [] h

mutual

theorem sorted_of_ordered : ∀ {v : Json}, Ordered v → v.sorted = v
  | .null, _ | .bool _, _ | .int _, _ | .float _, _ | .str _, _ => rfl
  | .arr items, h => by rw [sorted, sortedItems_of_ordered h]
  | .obj members, h => by rw [sorted, sortedMembers_of_ordered h.2, sortMembers_of_pairwise h.1]

theorem sortedItems_of_ordered : ∀ {vs : List Json}, OrderedItems vs → sortedItems vs = vs
  | [], _ => rfl
  | v :: vs, h => by rw [sortedItems, sorted_of_ordered h.1, sortedItems_of_ordered h.2]

theorem sortedMembers_of_ordered : ∀ {ms : List (String × Json)}, OrderedMembers ms → sortedMembers ms = ms
  | [], _ => rfl
  | (k, v) :: ms, h => by rw [sortedMembers, sorted_of_ordered h.1, sortedMembers_of_ordered h.2]

end

end SchemaDialects.Json
