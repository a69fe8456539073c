import Localizer.Source.Reader
import Localizer.Proofs.Layout
/-!
# Reading — what has been read lies behind the reader

`Reads p` says that the nodes of what `p` reads are laid between the token where `p` starts and the end of the last token
that it passes; `ReadsExpr p` adds where the expression itself stands.  Both are shown by going through a reader step by
step.  `Ensures P p Q` is a step from places with `P` to places with `Q`, and `At F ns` is the assertion that such a proof
carries along: the nodes `ns` have been read since the frame `F` began.  No reader goes back, so whatever is read next
leaves it true (`Ensures.skip`); reading a tree adds its nodes (`Ensures.read`, `Ensures.expr`).
-/
namespace Localizer
namespace Source

open Text (byteLength Boundary)

/-! ## Values with nodes -/

/-- **Values that hold names and calls.** -/
class HasNodes (α : Type) where
  nodes : α → List Node

export HasNodes (nodes)

section Instances

variable {α β : Type} [HasNodes α] [HasNodes β]

instance : HasNodes Expr := ⟨Expr.nodes⟩
instance : HasNodes Member := ⟨Member.nodes⟩
instance : HasNodes Pattern := ⟨Pattern.nodes⟩
instance : HasNodes Function := ⟨Function.nodes⟩
instance : HasNodes Declarator := ⟨Declarator.nodes⟩
instance : HasNodes Stmt := ⟨Stmt.nodes⟩
instance : HasNodes Ident := ⟨fun id => [.name id]⟩
instance : HasNodes ImportedName := ⟨fun imported => [.name imported.ident]⟩
instance : HasNodes Bool := ⟨fun _ => []⟩
instance : HasNodes (List α) := ⟨fun as => as.flatMap nodes⟩
instance : HasNodes (Option α) := ⟨fun o => o.toList.flatMap nodes⟩
instance : HasNodes (α × β) := ⟨fun p => nodes p.1 ++ nodes p.2⟩

@[simp] theorem nodes_expr : (nodes : Expr → List Node) = Expr.nodes := rfl
@[simp] theorem nodes_member : (nodes : Member → List Node) = Member.nodes := rfl
@[simp] theorem nodes_pattern : (nodes : Pattern → List Node) = Pattern.nodes := rfl
@[simp] theorem nodes_function : (nodes : Function → List Node) = Function.nodes := rfl
@[simp] theorem nodes_declarator : (nodes : Declarator → List Node) = Declarator.nodes := rfl
@[simp] theorem nodes_stmt : (nodes : Stmt → List Node) = Stmt.nodes := rfl
@[simp] theorem nodes_ident (id : Ident) : nodes id = [.name id] := rfl
@[simp] theorem nodes_imported (imported : ImportedName) : nodes imported = [.name imported.ident] := rfl
@[simp] theorem nodes_bool (b : Bool) : nodes b = [] := rfl
@[simp] theorem nodes_list (as : List α) : nodes as = as.flatMap nodes := rfl
@[simp] theorem nodes_none : nodes (none : Option α) = [] := rfl
@[simp] theorem nodes_some (a : α) : nodes (some a) = nodes a := List.append_nil _
@[simp] theorem nodes_pair (a : α) (b : β) : nodes (a, b) = nodes a ++ nodes b := rfl

@[simp] theorem nodes_name (name : Option Ident) : nodes name = name.toList.map .name := by
  cases name with
  | none => rfl
  | some id => rw [nodes_some, nodes_ident]; rfl

@[simp] theorem nodes_importedNames (names : List ImportedName) :
    names.flatMap nodes = names.map (.name ·.ident) := List.flatMap_pure_eq_map ..

theorem nodes_flatten (parts : List (List α)) : nodes parts.flatten = nodes parts := by
  induction parts with
  | nil => rfl
  | cons part parts ih =>
    rw [nodes_list] at ih ⊢
    rw [List.flatten_cons, List.flatMap_append, ih]
    rfl

end Instances

/-! ## Steps -/

variable {α β : Type} {P : ReadState → Prop} {Q : β → ReadState → Prop}

/-- **A reader that starts where `P` holds ends where `Q` holds**, if it does not fail. -/
def Ensures (P : ReadState → Prop) (p : Reader α) (Q : α → ReadState → Prop) : Prop :=
  ∀ s, P s → ∀ a s', p s = .ok (a, s') → Q a s'.1

theorem bind_eq_ok {p : Reader α} {f : α → Reader β} {s : ReadState} {b : β} {s'' : s.From}
    (h : (p >>= f) s = .ok (b, s'')) :
    ∃ a s', p s = .ok (a, s') ∧ ∃ t, f a s'.1 = .ok (b, t) ∧ t.1 = s''.1 := by
  change Reader.bind p f s = .ok (b, s'') at h
  unfold Reader.bind at h
  split at h
  · cases h
  · rename_i a s' hp
    split at h
    · cases h
    · rename_i b' t hf
      cases h
      exact ⟨a, s', hp, t, hf, rfl⟩

namespace Ensures

theorem bind {p : Reader α} {f : α → Reader β} {R : α → ReadState → Prop} (hp : Ensures P p R)
    (hf : ∀ a, Ensures (R a) (f a) Q) : Ensures P (p >>= f) Q := by
  intro s hs b s'' h
  obtain ⟨a, s', ha, t, hb, ht⟩ := bind_eq_ok h
  rw [← ht]
  exact hf a s'.1 (hp s hs a s' ha) b t hb

theorem pure {b : β} (h : ∀ s, P s → Q b s) : Ensures P (Pure.pure b : Reader β) Q := by
  intro s hs b' s' hb
  cases hb
  exact h s hs

theorem fail : Ensures P (Reader.fail : Reader β) Q := by
  intro s _ b s' h
  cases h

theorem weaken {p : Reader β} {R : β → ReadState → Prop} (hp : Ensures P p R) (h : ∀ b s, R b s → Q b s) :
    Ensures P p Q := fun s hs b s' hb => h b s'.1 (hp s hs b s' hb)

theorem strengthen {p : Reader β} {P' : ReadState → Prop} (hp : Ensures P p Q) (h : ∀ s, P' s → P s) :
    Ensures P' p Q := fun s hs => hp s (h s hs)

theorem and {p : Reader β} {R : β → ReadState → Prop} (hp : Ensures P p Q) (hp' : Ensures P p R) :
    Ensures P p fun b s => Q b s ∧ R b s := fun s hs b s' hb => ⟨hp s hs b s' hb, hp' s hs b s' hb⟩

theorem any {p : Reader β} : Ensures P p fun _ _ => True := fun _ _ _ _ _ => trivial

/-- **No reader goes back.** -/
theorem later {p : Reader β} {s : ReadState} : Ensures (· = s) p fun _ s' => s.Before s' := by
  rintro _ rfl _ s' _
  exact s'.2

/-- **To go on from every place with `P`**, go on from each of them. -/
theorem fix {p : Reader β} (h : ∀ s, P s → Ensures (· = s) p Q) : Ensures P p Q :=
  fun s hs => h s hs s rfl

/-- **At a known place with `P`.** -/
theorem known {p : Reader β} {s : ReadState} (hs : P s) (h : Ensures P p Q) : Ensures (· = s) p Q :=
  h.strengthen fun _ hs' => hs' ▸ hs

theorem look_state {f : ReadState → Reader β} {s : ReadState} (h : Ensures (· = s) (f s) Q) :
    Ensures (· = s) (Reader.state >>= f) Q := by
  refine bind (R := fun t s' => t = s ∧ s' = s) ?_ fun t => ?_
  · rintro _ rfl _ _ hb
    cases hb
    exact ⟨rfl, rfl⟩
  · rintro _ ⟨rfl, rfl⟩
    exact h _ rfl

theorem look_here {f : Nat → Reader β} {s : ReadState} (h : Ensures (· = s) (f s.token.span.lo) Q) :
    Ensures (· = s) (Reader.here >>= f) Q := by
  rintro _ rfl b s' hb
  exact look_state (f := fun s => f s.token.span.lo) h _ rfl b s' hb

theorem look_span {lo : Nat} {f : Span → Reader β} {s : ReadState} (h : Ensures (· = s) (f ⟨lo, s.previousEnd⟩) Q) :
    Ensures (· = s) (Reader.spanFrom lo >>= f) Q := by
  rintro _ rfl b s' hb
  exact look_state (f := fun s => f ⟨lo, s.previousEnd⟩) h _ rfl b s' hb

theorem look_token {f : Token → Reader β} {s : ReadState} (h : Ensures (· = s) (f s.token) Q) :
    Ensures (· = s) (Reader.token >>= f) Q := by
  rintro _ rfl b s' hb
  exact look_state (f := fun s => f s.token) h _ rfl b s' hb

theorem look_kind {f : TokenKind → Reader β} {s : ReadState} (h : Ensures (· = s) (f s.token.kind) Q) :
    Ensures (· = s) (Reader.kind >>= f) Q := by
  rintro _ rfl b s' hb
  exact look_state (f := fun s => f s.token.kind) h _ rfl b s' hb

theorem pass {f : Unit → Reader β} {s : ReadState} (h : Ensures (· = s.next) (f ()) Q) :
    Ensures (· = s) (Reader.advance >>= f) Q := by
  refine bind (R := fun _ s' => s' = s.next) ?_ fun _ => h
  rintro _ rfl _ _ hb
  cases hb
  rfl

end Ensures

/-! ## What has been read since a place -/

/-- **Where a stretch of reading began.** -/
structure Frame where
  whole : List Char
  lo : Nat
  starts : Boundary whole lo

/-- **A stretch that begins at a place.** -/
def Frame.of (s : ReadState) : Frame := ⟨s.whole, s.token.span.lo, s.placed.source.boundary⟩

/-- **The nodes `ns` have been read since `F` began**, and the reader has come at least to `n`. -/
structure At (F : Frame) (n : Nat) (ns : List Node) (s : ReadState) : Prop where
  whole : s.whole = F.whole
  lo_le : F.lo ≤ s.token.span.lo
  floor_le : n ≤ s.previousEnd
  laid : Laid F.whole F.lo s.previousEnd ns

namespace At

variable {F : Frame} {n : Nat} {ns ms : List Node} {s s' : ReadState}

theorem of (s : ReadState) : At (.of s) s.previousEnd [] s := ⟨rfl, Nat.le_refl _, Nat.le_refl _, .nil⟩

theorem before (h : At F n ns s) (hs : s.Before s') : At F n ns s' :=
  ⟨hs.whole.trans h.whole, Nat.le_trans h.lo_le hs.here, Nat.le_trans h.floor_le hs.previousEnd,
    h.laid.mono (Nat.le_refl _) hs.previousEnd⟩

theorem sub (h : At F n ns s) (hsub : ms.Subperm ns) : At F n ms s :=
  ⟨h.whole, h.lo_le, h.floor_le, h.laid.subperm hsub⟩

theorem raise (h : At F n ns s) {m : Nat} (hm : m ≤ s.previousEnd) : At F m ns s := ⟨h.whole, h.lo_le, hm, h.laid⟩

/-- **A stretch of reading that goes on from here.** -/
theorem append (h : At F n ns s) (hs : s.Before s') (h' : Laid s.whole s.token.span.lo s'.previousEnd ms) :
    At F n (ns ++ ms) s' := by
  refine ⟨hs.whole.trans h.whole, Nat.le_trans h.lo_le hs.here, Nat.le_trans h.floor_le hs.previousEnd, ?_⟩
  rw [h.whole] at h'
  exact h.laid.append h' s.placed.start_le h.lo_le hs.previousEnd

end At

/-! ## Readers of trees -/

/-- **What `p` reads lies between where it starts and where it ends.** -/
structure Reads [HasNodes α] (p : Reader α) : Prop where
  laid : ∀ {s : ReadState} {a : α} {s' : s.From}, p s = .ok (a, s') →
    Laid s.whole s.token.span.lo s'.1.previousEnd (nodes a)

/-- **A value that has been read since `F` began.** -/
def Behind [HasNodes α] (F : Frame) (a : α) (s : ReadState) : Prop := Laid F.whole F.lo s.previousEnd (nodes a)

/-- **An expression that has been read since `F` began**, and where it stands. -/
structure Built (F : Frame) (e : Expr) (s : ReadState) : Prop where
  lo_le : F.lo ≤ e.span.lo
  set : e.Set F.whole
  read : At F e.span.hi e.nodes s

/-- **The expression that `p` reads lies between where it starts and where it ends.** -/
structure ReadsExpr (p : Reader Expr) : Prop where
  built : ∀ {s : ReadState} {e : Expr} {s' : s.From}, p s = .ok (e, s') → Built (.of s) e s'.1

/-- **`p` does not end before the token where it starts.** -/
structure Takes (p : Reader α) : Prop where
  le : ∀ {s : ReadState} {a : α} {s' : s.From}, p s = .ok (a, s') → s.token.span.lo ≤ s'.1.previousEnd

/-- **A reader that goes on from a value already read**, and adds what it reads to it. -/
def Extends [HasNodes α] [HasNodes β] (a : α) (p : Reader β) : Prop :=
  ∀ F n ns, Ensures (At F n (ns ++ nodes a)) p fun b => At F n (ns ++ nodes b)

theorem Reads.start [HasNodes α] {p : Reader α} (h : ∀ s, Ensures (· = s) p (Behind (.of s))) : Reads p :=
  ⟨fun {s a s'} hp => h s s rfl a s' hp⟩

theorem Reads.intro [HasNodes α] {p : Reader α} (h : ∀ F n, Ensures (At F n []) p (Behind F)) : Reads p :=
  .start fun s => .known (At.of s) (h (.of s) _)

theorem ReadsExpr.start {p : Reader Expr} (h : ∀ s, Ensures (· = s) p (Built (.of s))) : ReadsExpr p :=
  ⟨fun {s e s'} hp => h s s rfl e s' hp⟩

theorem ReadsExpr.intro {p : Reader Expr} (h : ∀ F n, Ensures (At F n []) p (Built F)) : ReadsExpr p :=
  .start fun s => .known (At.of s) (h (.of s) _)

theorem ReadsExpr.fromHere {f : Nat → Reader Expr} (h : ∀ F n, Ensures (At F n []) (f F.lo) (Built F)) :
    ReadsExpr (Reader.here >>= f) :=
  .start fun s => .look_here (.known (At.of s) (h (.of s) _))

theorem ReadsExpr.reads {p : Reader Expr} (h : ReadsExpr p) : Reads p := ⟨fun hp => (h.built hp).read.laid⟩

namespace Ensures

variable {F : Frame} {n : Nat} {ns : List Node}

/-- **Whatever is read next** leaves true what has been read. -/
theorem skip {p : Reader α} {f : α → Reader β} (h : ∀ a, Ensures (At F n ns) (f a) Q) :
    Ensures (At F n ns) (p >>= f) Q :=
  bind (fun _ hs _ s' _ => hs.before s'.2) h

theorem take {p : Reader α} {f : α → Reader β} (hp : Takes p) (h : ∀ a, Ensures (At F F.lo ns) (f a) Q) :
    Ensures (At F n ns) (p >>= f) Q :=
  bind (fun _ hs _ s' hp' => (hs.before s'.2).raise (Nat.le_trans hs.lo_le (hp.le hp'))) h

theorem frame [HasNodes α] {p : Reader α} (hp : Reads p) : Ensures (At F n ns) p fun a => At F n (ns ++ nodes a) :=
  fun _ hs _ s' hp' => hs.append s'.2 (hp.laid hp')

theorem read [HasNodes α] {p : Reader α} {f : α → Reader β} (hp : Reads p)
    (h : ∀ a, Ensures (At F n (ns ++ nodes a)) (f a) Q) : Ensures (At F n ns) (p >>= f) Q :=
  bind (frame hp) h

theorem extend {γ : Type} [HasNodes α] [HasNodes γ] {a : α} {p : Reader γ} {f : γ → Reader β} (hp : Extends a p)
    (h : ∀ c, Ensures (At F n (ns ++ nodes c)) (f c) Q) : Ensures (At F n (ns ++ nodes a)) (p >>= f) Q :=
  bind (hp F n ns) h

theorem lastExpr {p : Reader Expr} (hp : ReadsExpr p) :
    Ensures (At F n ns) p fun e s => F.lo ≤ e.span.lo ∧ e.Set F.whole ∧ At F e.span.hi (ns ++ e.nodes) s := by
  intro s hs e s' he
  have hbuilt := hp.built he
  have hset := hbuilt.set
  rw [show (Frame.of s).whole = F.whole from hs.whole] at hset
  exact ⟨Nat.le_trans hs.lo_le hbuilt.lo_le, hset, (hs.append s'.2 hbuilt.read.laid).raise hbuilt.read.floor_le⟩

theorem tail {p : Reader Expr} (hp : ReadsExpr p) : Ensures (At F n []) p (Built F) :=
  (lastExpr hp).weaken fun _ _ ⟨hlo, hset, hs⟩ => ⟨hlo, hset, hs⟩

theorem expr {p : Reader Expr} {f : Expr → Reader β} (hp : ReadsExpr p)
    (h : ∀ e, F.lo ≤ e.span.lo → e.Set F.whole → Ensures (At F e.span.hi (ns ++ e.nodes)) (f e) Q) :
    Ensures (At F n ns) (p >>= f) Q :=
  bind (lastExpr hp) fun e s ⟨hlo, hset, hs⟩ => h e hlo hset s hs

/-! A part that is read on a condition only, before a reading goes on at `jp`. -/

theorem ifThen [Inhabited α] {c : Prop} [Decidable c] {p : Reader α} {jp : α → Reader β}
    (h : ∀ u, Ensures (At F n ns) (jp u) Q) :
    Ensures (At F n ns) (have go := jp; if c then p >>= go else go default) Q := by
  dsimp only
  split
  · exact skip h
  · exact h default

theorem ifThenDrop {c : Prop} [Decidable c] {p : Reader α} {jp : Unit → Reader β}
    (h : ∀ u, Ensures (At F n ns) (jp u) Q) :
    Ensures (At F n ns) (have go := jp; if c then p >>= fun _ => go () else go ()) Q := by
  dsimp only
  split
  · exact skip fun _ => h ()
  · exact h ()

theorem ifNot [Inhabited α] {c : Prop} [Decidable c] {p : Reader α} {jp : α → Reader β}
    (h : ∀ u, Ensures (At F n ns) (jp u) Q) :
    Ensures (At F n ns) (have go := jp; if c then go default else p >>= go) Q := by
  dsimp only
  split
  · exact h default
  · exact skip h

theorem done [HasNodes α] {a : α} (h : (nodes a).Subperm ns) : Ensures (At F n ns) (Pure.pure a : Reader α) (Behind F) :=
  pure fun _ hs => (hs.sub h).laid

theorem last [HasNodes α] {p : Reader α} (hp : Reads p) : Ensures (At F n ns) p (Behind F) :=
  (frame hp).weaken fun _ _ hs => (hs.sub (subperm_self_append ..)).laid

theorem lastExtend [HasNodes α] [HasNodes β] {a : α} {p : Reader β} (hp : Extends a p) :
    Ensures (At F n (nodes a)) p (Behind F) :=
  (hp F n []).weaken fun _ _ hs => hs.laid

end Ensures

/-! ## Tokens -/

namespace ReadState

theorem spelled_of_kind {s : ReadState} {k : TokenKind} (h : s.token.kind = k) (hk : k ≠ .invalid) :
    ∃ read, s.source = read ++ s.rest ∧ s.token.span.hi = s.token.span.lo + byteLength read ∧ Spelled k read := by
  obtain ⟨read, hsource, hhi, hspell⟩ := s.placed.spelled (by rw [h]; exact hk)
  dsimp only at hsource hhi hspell
  rw [h] at hspell
  exact ⟨read, hsource, hhi, hspell⟩

/-- **A mark stands in the text where its token says.** -/
theorem text_of_mark {s : ReadState} {m : String} (h : s.token.kind = .mark m) :
    (∃ front back, s.whole = front ++ (m.toList ++ back) ∧ byteLength front = s.token.span.lo) ∧
      s.token.span.hi = s.token.span.lo + byteLength m.toList ∧ m.toList ≠ [] := by
  obtain ⟨read, hsource, hhi, rfl, hne⟩ := s.spelled_of_kind h nofun
  refine ⟨?_, hhi, hne⟩
  obtain ⟨front, hwhole, hlo⟩ := s.placed.source.of_ne_nil fun hnil =>
    hne (List.append_eq_nil_iff.1 (hsource.symm.trans hnil)).1
  exact ⟨front, s.rest, by rw [hwhole, hsource], hlo⟩

theorem lo_lt_hi_of_mark {s : ReadState} {m : String} (h : s.token.kind = .mark m) :
    s.token.span.lo < s.token.span.hi := by
  obtain ⟨-, hhi, hne⟩ := s.text_of_mark h
  have := byteLength_pos hne
  omega

theorem lo_lt_hi_of_word {s : ReadState} {w : String} {escaped : Bool} (h : s.token.kind = .word w escaped) :
    s.token.span.lo < s.token.span.hi := by
  obtain ⟨read, -, hhi, hspell⟩ := s.spelled_of_kind h nofun
  have := byteLength_pos hspell
  omega

/-- **A quoted token stands between its quotes.** -/
theorem text_of_quoted {s : ReadState} {value : Cooked} (h : s.token.kind = .quoted value) :
    Quoted s.whole s.token.span value := by
  obtain ⟨read, hsource, hhi, quote, raw, hquote, rfl, hvalue⟩ := s.spelled_of_kind h nofun
  obtain ⟨front, hwhole, hlo⟩ := s.placed.source.of_ne_nil (by rw [hsource]; exact List.cons_ne_nil _ _)
  have hone : quote.utf8Size = 1 := by rcases hquote with rfl | rfl <;> rfl
  refine ⟨front, quote, raw, s.rest, hquote, by rw [hwhole, hsource]; simp, ?_, hvalue⟩
  have hwidth : byteLength (quote :: (raw ++ [quote])) = byteLength raw + 2 := by
    simp only [byteLength, Text.byteLength_append, hone]
    omega
  rw [hlo, Nat.add_assoc, ← hwidth, ← hhi]

end ReadState

theorem isMark_eq_ok {m : String} {s : ReadState} {b : Bool} {s' : s.From} (h : Reader.isMark m s = .ok (b, s')) :
    b = (s.token.kind == .mark m) ∧ s'.1 = s := by
  cases h
  exact ⟨rfl, rfl⟩

theorem eatMark_eq_ok {m : String} {s : ReadState} {b : Bool} {s' : s.From} (h : Reader.eatMark m s = .ok (b, s')) :
    (b = true ∧ s.token.kind = .mark m ∧ s'.1 = s.next) ∨ (b = false ∧ s.token.kind ≠ .mark m ∧ s'.1 = s) := by
  obtain ⟨is, t, his, u, hu, hs'⟩ := bind_eq_ok h
  cases his
  dsimp only at hu hs'
  split at hu
  · rename_i hk
    cases hu
    exact .inl ⟨rfl, by simpa using hk, hs'.symm⟩
  · rename_i hk
    cases hu
    exact .inr ⟨rfl, by simpa using hk, hs'.symm⟩

theorem expectMark_eq_ok {m : String} {s : ReadState} {u : Unit} {s' : s.From}
    (h : Reader.expectMark m s = .ok (u, s')) : s.token.kind = .mark m ∧ s'.1 = s.next := by
  obtain ⟨b, t, hb, v, hv, hs'⟩ := bind_eq_ok h
  rcases eatMark_eq_ok hb with ⟨rfl, hk, ht⟩ | ⟨rfl, -, -⟩
  · cases hv
    exact ⟨hk, hs'.symm.trans ht⟩
  · cases hv

namespace Ensures

theorem look_mark {m : String} {f : Bool → Reader β} {s : ReadState}
    (hyes : s.token.kind = .mark m → Ensures (· = s) (f true) Q)
    (hno : s.token.kind ≠ .mark m → Ensures (· = s) (f false) Q) : Ensures (· = s) (Reader.isMark m >>= f) Q := by
  rintro s rfl b s'' hb
  obtain ⟨is, s', his, t, hf, ht⟩ := bind_eq_ok hb
  obtain ⟨rfl, hs'⟩ := isMark_eq_ok his
  rw [← ht]
  by_cases hk : s.token.kind = .mark m
  · exact hyes hk s'.1 hs' b t (by rwa [beq_iff_eq.2 hk] at hf)
  · exact hno hk s'.1 hs' b t (by rwa [beq_eq_false_iff_ne.2 hk] at hf)

theorem pass_mark {m : String} {f : Unit → Reader β} {s : ReadState}
    (h : s.token.kind = .mark m → Ensures (· = s.next) (f ()) Q) : Ensures (· = s) (Reader.expectMark m >>= f) Q := by
  rintro s rfl b s'' hb
  obtain ⟨u, s', hu, t, hf, ht⟩ := bind_eq_ok hb
  obtain ⟨hk, hs'⟩ := expectMark_eq_ok hu
  rw [← ht]
  exact h hk s'.1 hs' b t hf

theorem eat_mark {m : String} {f : Bool → Reader β} {s : ReadState}
    (hyes : s.token.kind = .mark m → Ensures (· = s.next) (f true) Q)
    (hno : s.token.kind ≠ .mark m → Ensures (· = s) (f false) Q) : Ensures (· = s) (Reader.eatMark m >>= f) Q := by
  rintro s rfl b s'' hb
  obtain ⟨closed, s', hc, t, hf, ht⟩ := bind_eq_ok hb
  rw [← ht]
  rcases eatMark_eq_ok hc with ⟨rfl, hk, hs'⟩ | ⟨rfl, hk, hs'⟩
  · exact hyes hk s'.1 hs' b t hf
  · exact hno hk s'.1 hs' b t hf

theorem known_expr {p : Reader Expr} {f : Expr → Reader β} {s : ReadState} (hp : ReadsExpr p)
    (h : ∀ e (s' : s.From), Built (.of s) e s'.1 → Ensures (· = s'.1) (f e) Q) : Ensures (· = s) (p >>= f) Q := by
  rintro s rfl b s'' hb
  obtain ⟨e, s', he, t, hf, ht⟩ := bind_eq_ok hb
  rw [← ht]
  exact h e s' (hp.built he) s'.1 rfl b t hf

end Ensures

namespace Takes

theorem bind {p : Reader α} {f : α → Reader β} (hp : Takes p) : Takes (p >>= f) := by
  refine ⟨fun {s b s''} h => ?_⟩
  obtain ⟨a, s', ha, t, -, ht⟩ := bind_eq_ok h
  rw [← ht]
  exact Nat.le_trans (hp.le ha) t.2.previousEnd

theorem later {p : Reader α} {f : α → Reader β} (hf : ∀ a, Takes (f a)) : Takes (p >>= f) := by
  refine ⟨fun {s b s''} h => ?_⟩
  obtain ⟨a, s', -, t, hb, ht⟩ := bind_eq_ok h
  rw [← ht]
  exact Nat.le_trans s'.2.here ((hf a).le hb)

theorem fail : Takes (Reader.fail : Reader β) := ⟨fun h => by cases h⟩

theorem advance : Takes Reader.advance := by
  refine ⟨fun {s _ s'} h => ?_⟩
  cases h
  exact s.placed.lo_le_hi

theorem skip (n : Nat) : Takes (Reader.skip n) := by
  refine ⟨fun {s _ s'} h => ?_⟩
  cases h
  exact Nat.le_add_right _ _

theorem skipPast (n : Nat) : Takes (Reader.skipPast n) := by
  refine ⟨fun {s _ s'} h => ?_⟩
  cases h
  exact Nat.le_trans s.placed.lo_le_hi (Nat.le_add_right _ _)

theorem expectMark (m : String) : Takes (Reader.expectMark m) := by
  refine ⟨fun {s _ s'} h => ?_⟩
  rw [(expectMark_eq_ok h).2]
  exact s.placed.lo_le_hi

theorem expectWord (w : String) : Takes (Reader.expectWord w) := by
  refine ⟨fun {s _ s'} h => ?_⟩
  obtain ⟨b, t, hb, v, hv, hs'⟩ := bind_eq_ok h
  obtain ⟨is, u, his, x, hx, ht⟩ := bind_eq_ok hb
  cases his
  dsimp only at hx ht
  split at hx
  · cases hx
    cases hv
    rw [← hs', ← ht]
    exact s.placed.lo_le_hi
  · cases hx
    cases hv

end Takes

/-- **A word is a name where it stands.** -/
theorem laid_word {s : ReadState} {w : String} {escaped : Bool} (h : s.token.kind = .word w escaped) :
    Laid s.whole s.token.span.lo s.next.previousEnd [.name ⟨w, s.token.span⟩] :=
  .name ⟨w, s.token.span⟩ s.placed.source.boundary (s.lo_lt_hi_of_word h)

theorem reads_anyWord : Reads Reader.anyWord := by
  refine .start fun s => ?_
  unfold Reader.anyWord
  refine .look_token ?_
  split
  · rename_i w escaped hk
    exact .pass (.pure fun _ hs => hs ▸ laid_word hk)
  · exact .fail

theorem reads_ident (ctx : Context) : Reads (Reader.ident ctx) := by
  refine .start fun s => ?_
  unfold Reader.ident
  refine .look_token ?_
  split
  · rename_i w escaped hk
    split
    · exact .pass (.pure fun _ hs => hs ▸ laid_word hk)
    · exact .fail
  · exact .fail

/-! ## Trying and looking ahead -/

theorem attempt_eq_ok {p : Reader α} {s : ReadState} {o : Option α} {s' : s.From}
    (h : Reader.attempt p s = .ok (o, s')) : (o = none ∧ s'.1 = s) ∨ ∃ a, o = some a ∧ p s = .ok (a, s') := by
  unfold Reader.attempt at h
  split at h
  · rename_i a t hp
    cases h
    exact .inr ⟨a, rfl, hp⟩
  · cases h
    exact .inl ⟨rfl, rfl⟩

theorem Ensures.attempt {p : Reader α} {f : Option α → Reader β} {R : α → ReadState → Prop} (hp : Ensures P p R)
    (hnone : Ensures P (f none) Q) (hsome : ∀ a, Ensures (R a) (f (some a)) Q) : Ensures P (Reader.attempt p >>= f) Q := by
  intro s hs b s'' hb
  obtain ⟨o, s', ho, t, hf, ht⟩ := bind_eq_ok hb
  rw [← ht]
  rcases attempt_eq_ok ho with ⟨rfl, hs'⟩ | ⟨a, rfl, ha⟩
  · exact hnone s'.1 (by rwa [hs']) b t hf
  · exact hsome a s'.1 (hp s hs a s' ha) b t hf

theorem Ensures.unlessBetter {p better : Reader β} {doubt : Reader Bool} (hp : Ensures P p Q)
    (hbetter : Ensures P better Q) : Ensures P (Reader.unlessBetter p doubt better) Q := by
  intro s hs b s' h
  unfold Reader.unlessBetter at h
  split at h
  · cases h
  rename_i a t hp'
  split at h
  · split at h
    · rename_i found hb
      cases h
      exact hbetter s hs b s' hb
    · cases h
      exact hp s hs b s' hp'
  · cases h
    exact hp s hs b s' hp'

theorem Ensures.lastAttempt {p : Reader α} {R : α → ReadState → Prop} (hp : Ensures P p R) :
    Ensures P (Reader.attempt p) fun o s => o.elim (P s) fun a => R a s := by
  intro s hs o s' ho
  rcases attempt_eq_ok ho with ⟨rfl, hs'⟩ | ⟨a, rfl, ha⟩
  · exact show P s'.1 by rwa [hs']
  · exact hp s hs a s' ha

theorem Reads.attempt [HasNodes α] {p : Reader α} (hp : Reads p) : Reads (Reader.attempt p) := by
  refine ⟨fun {s o s'} h => ?_⟩
  rcases attempt_eq_ok h with ⟨rfl, -⟩ | ⟨a, rfl, ha⟩
  · exact .nil
  · rw [nodes_some]
    exact hp.laid ha

/-! Something that may be found. -/

theorem behind_some [HasNodes α] {F : Frame} {a : α} {s : ReadState} : Behind F (some a) s ↔ Behind F a s := by
  rw [Behind, Behind, nodes_some]

namespace Ensures

variable [HasNodes α] {F : Frame} {n : Nat} {ns : List Node}

theorem nothing : Ensures P (Pure.pure none : Reader (Option α)) (Behind F) := pure fun _ _ => .nil

theorem kept {a : α} : Ensures (Behind F a) (Pure.pure a : Reader α) (Behind F) := pure fun _ hs => hs

theorem found {p : Reader α} (hp : Ensures P p (Behind F)) :
    Ensures P (p >>= fun a => Pure.pure (some a)) (Behind F) :=
  bind hp fun _ => pure fun _ => behind_some.2

/-- **Something that is found at once**, or the reading goes on from the same nodes. -/
theorem perhaps {p : Reader (Option α)} {f : Option α → Reader β} (hp : Ensures (At F n ns) p (Behind F))
    (hsome : ∀ a, Ensures (Behind F a) (f (some a)) Q) (hnone : Ensures (At F n ns) (f none) Q) :
    Ensures (At F n ns) (p >>= f) Q := by
  refine bind (R := fun o s => At F n ns s ∧ Behind F o s) (fun s hs o s' ho => ⟨hs.before s'.2, hp s hs o s' ho⟩) ?_
  intro o
  cases o with
  | none => exact hnone.strengthen fun _ hs => hs.1
  | some a => exact (hsome a).strengthen fun _ hs => behind_some.1 hs.2

theorem lastPerhaps {p : Reader α} (hp : Ensures P p (Behind F)) : Ensures P (Reader.attempt p) (Behind F) := by
  refine (lastAttempt hp).weaken fun o _ hs => ?_
  cases o with
  | none => exact .nil
  | some a => exact behind_some.2 hs

end Ensures

/-! ## Loops -/

namespace Ensures

/-- **A loop that collects**: `J` holds before each turn, and `Z` after the last one. -/
theorem collect {J Z : List α → ReadState → Prop} {step : Reader (Option α)}
    (h : ∀ as, Ensures (J as) step fun o s => o.elim (Z as s) fun a => J (as ++ [a]) s) :
    Ensures (J []) (Reader.collect step) Z := by
  have turn : ∀ (n : Nat) (found : List α), Ensures (J found.reverse) (Reader.collectFor n step found) Z := by
    intro n
    induction n with
    | zero => exact fun _ => fail
    | succ n ih =>
      intro found
      refine bind (h found.reverse) fun o => ?_
      cases o with
      | none => exact pure fun _ hs => hs
      | some a => exact (ih (a :: found)).strengthen fun _ hs => by simpa using hs
  exact fix fun s hs => look_state (known hs (turn s.turns []))

/-- **A loop that goes on from a value**: `I` holds of each value, and `Z` of the last one. -/
theorem fold {I Z : α → ReadState → Prop} {step : α → Reader (Option α)}
    (h : ∀ a, Ensures (I a) (step a) fun o s => o.elim (Z a s) fun b => I b s) (a : α) :
    Ensures (I a) (Reader.fold step a) Z := by
  have turn : ∀ (n : Nat) (a : α), Ensures (I a) (Reader.foldFor n step a) Z := by
    intro n
    induction n with
    | zero => exact fun _ => fail
    | succ n ih =>
      intro a
      refine bind (h a) fun o => ?_
      cases o with
      | none => exact pure fun _ hs => hs
      | some b => exact ih b
  exact fix fun s hs => look_state (known hs (turn s.turns a))

end Ensures

theorem Reads.collect [HasNodes α] {step : Reader (Option α)} (h : Reads step) : Reads (Reader.collect step) := by
  refine .intro fun F n => Ensures.collect (J := fun as : List α => At F n (nodes as)) fun as => ?_
  refine (Ensures.frame h).weaken fun o s hs => ?_
  cases o with
  | none => simpa [Behind] using hs.laid
  | some a => simpa using hs

theorem Reads.allUntil [HasNodes α] {item : Reader α} (close : String) (h : Reads item) :
    Reads (Reader.allUntil close item) := by
  refine .collect (.intro fun F n => .skip fun closed => ?_)
  split
  · exact .done (.refl _)
  · exact .read h fun a => .done (by simp)

theorem Reads.listUntil [HasNodes α] {item : Reader α} (close : String) (h : Reads item) :
    Reads (Reader.listUntil close item) := by
  refine .collect (.intro fun F n => .skip fun closed => ?_)
  split
  · exact .done (.refl _)
  exact .read h fun a => .skip fun closed => .ifNot fun _ => .done (by simp)

/-- **A mark that has just been passed.** -/
def Passed (m : String) (s : ReadState) : Prop :=
  ∃ front back, s.whole = front ++ (m.toList ++ back) ∧ s.previousEnd = byteLength (front ++ m.toList)

theorem passed_next {s : ReadState} {m : String} (h : s.token.kind = .mark m) : Passed m s.next := by
  obtain ⟨⟨front, back, hwhole, hlo⟩, hhi, -⟩ := s.text_of_mark h
  exact ⟨front, back, hwhole, by rw [Text.byteLength_append, hlo]; exact hhi⟩

/-- **A list ends with its closing mark.** -/
theorem passed_listUntil (close : String) (item : Reader α) :
    Ensures P (Reader.listUntil close item) fun _ => Passed close := by
  refine Ensures.strengthen (P := fun _ => True) ?_ fun _ _ => trivial
  refine Ensures.collect (J := fun _ _ => True) (Z := fun _ => Passed close) fun as => ?_
  refine .fix fun s _ => .eat_mark (fun hk => .pure fun _ hs => hs ▸ passed_next hk) fun _ => ?_
  refine .bind .any fun a => .bind .any fun closed => ?_
  extract_lets jp
  have more : ∀ u, Ensures (fun _ => True) (jp u) fun o s => o.elim (Passed close s) fun _ => True :=
    fun _ => .pure fun _ _ => trivial
  split
  · exact more ()
  · exact .bind .any more

/-! ## Parentheses -/

/-- **What stands before a mark** since the last token. -/
theorem ReadState.gap_of_mark {s : ReadState} {m : String} (h : s.token.kind = .mark m) :
    ∃ front gap, s.whole = front ++ (gap ++ (m.toList ++ s.rest)) ∧ byteLength front = s.previousEnd ∧
      s.token.span.lo = s.previousEnd + byteLength gap ∧ Trivia gap := by
  obtain ⟨read, hsource, -, rfl, hne⟩ := s.spelled_of_kind h nofun
  have hbehind := s.placed.behind fun hnil => hne (List.append_eq_nil_iff.1 (hsource.symm.trans hnil)).1
  rwa [hsource] at hbehind

/-- **A parenthesis that is closed at once.** -/
theorem ReadState.text_of_pair {s : ReadState} (hopen : s.token.kind = .mark "(")
    (hclose : s.next.token.kind = .mark ")") : ∃ front gap between back,
      s.whole = front ++ (gap ++ '(' :: (between ++ ')' :: back)) ∧ byteLength front = s.previousEnd ∧
      s.next.next.previousEnd = s.previousEnd + byteLength gap + byteLength between + 2 ∧ Trivia gap ∧ Trivia between := by
  obtain ⟨front, gap, hwhole, hfront, hlo, hgap⟩ := s.gap_of_mark hopen
  obtain ⟨front', between, hwhole', hfront', hlo', hbetween⟩ := s.next.gap_of_mark hclose
  obtain ⟨-, hhi, -⟩ := s.text_of_mark hopen
  obtain ⟨-, hhi', -⟩ := s.next.text_of_mark hclose
  have hone : byteLength "(".toList = 1 ∧ byteLength ")".toList = 1 := by decide
  rw [hone.1] at hhi
  rw [hone.2] at hhi'
  have hsplit : front' = front ++ (gap ++ ['(']) ∧ between ++ (")".toList ++ s.next.rest) = s.rest := by
    refine Text.append_inj_of_byteLength ?_ ?_
    · rw [← hwhole', show s.next.whole = s.whole from rfl, hwhole]
      simp
    · rw [hfront', Text.byteLength_append, Text.byteLength_append, hfront,
        show byteLength ['('] = 1 from hone.1, ← Nat.add_assoc, ← hlo, ← hhi]
      rfl
  refine ⟨front, gap, between, s.next.rest, ?_, hfront, ?_, hgap, hbetween⟩
  · rw [hwhole, ← hsplit.2]
    rfl
  · change s.next.token.span.hi = _
    change s.next.token.span.lo = s.token.span.hi + _ at hlo'
    omega

/-- **Nothing, or types between angle brackets**, have been passed since `n`. -/
inductive Led (n : Nat) (s : ReadState) : Prop
  | plain : s.previousEnd = n → Led n s
  | typed {before : ReadState} {m : String} : before.whole = s.whole → before.previousEnd = n →
      before.token.kind = .mark m → m.toList.head? = some '<' → before.token.span.lo < s.previousEnd → Passed ">" s → Led n s

/-- **Parentheses without arguments** end where the reader is behind them. -/
theorem Led.unfilled {n : Nat} {s : ReadState} (h : Led n s) (hopen : s.token.kind = .mark "(")
    (hclose : s.next.token.kind = .mark ")") : Unfilled s.whole n s.next.next.previousEnd := by
  obtain ⟨front, gap, between, back, hwhole, hfront, hend, hgap, hbetween⟩ := s.text_of_pair hopen hclose
  cases h with
  | plain hn => exact ⟨front, gap, between, back, hwhole, hfront.trans hn, hn ▸ hend, .plain hgap, hbetween⟩
  | @typed start m hstart hn hk hangle hlt hpassed =>
    obtain ⟨front', gap', hwhole', hfront', hlo', hgap'⟩ := start.gap_of_mark hk
    obtain ⟨passed, rest, hwhole'', hend'⟩ := hpassed
    obtain ⟨more, hmore⟩ : ∃ more, m.toList = '<' :: more := List.head?_eq_some_iff.1 hangle
    rw [hstart, hmore, ← List.append_assoc] at hwhole'
    -- the closing bracket stands behind the opening one, and the parenthesis behind both
    have hle : byteLength (front' ++ gap') ≤ byteLength passed := by
      rw [Text.byteLength_append, show byteLength ">".toList = 1 by decide] at hend'
      rw [Text.byteLength_append]
      omega
    obtain ⟨mid, rfl, hmid⟩ := Text.append_split_of_byteLength_le (hwhole'.symm.trans hwhole'') hle
    obtain ⟨rfl, -⟩ := Text.append_inj_of_byteLength
      ((List.append_assoc ..).trans (hwhole''.symm.trans hwhole)) (hend'.symm.trans hfront.symm)
    cases mid with
    | nil => cases hmid
    | cons c types =>
      obtain rfl : '<' = c := (List.cons.inj hmid).1
      refine ⟨front', gap' ++ '<' :: (types ++ '>' :: gap), between, back, ?_, hfront'.trans hn, ?_, .typed hgap' hgap,
        hbetween⟩
      · rw [hwhole]
        simp
      · rw [hend, ← hfront, ← hn, ← hfront']
        simp only [Text.byteLength_append, byteLength, show byteLength ">".toList = 1 by decide,
          show '>'.utf8Size = 1 by decide]
        omega

/-- **A list of types behind an opening angle bracket.** -/
theorem led_listUntil {s t : ReadState} {m : String} (hk : s.token.kind = .mark m) (hm : m.toList.head? = some '<')
    (hst : s.Before t) (hlt : s.token.span.lo < t.previousEnd) (item : Reader α) :
    Ensures (· = t) (Reader.listUntil ">" item) fun _ u => s.Before u ∧ Led s.previousEnd u :=
  (Ensures.later.and (passed_listUntil ">" item)).weaken fun _ _ ⟨htu, hpassed⟩ =>
    ⟨hst.trans htu, .typed (hst.trans htu).whole.symm rfl hk hm (Nat.lt_of_lt_of_le hlt htu.previousEnd) hpassed⟩

/-- **Parentheses, a member or a call ends where the reader is.** -/
def Tight (e : Expr) (s : ReadState) : Prop := e.stepped = true → s.previousEnd = e.span.hi

/-- **What holds of each item holds of all items of a list.** -/
theorem all_listUntil {M : α → Prop} (whole : List Char) (close : String) {item : Reader α}
    (h : Ensures (·.whole = whole) item fun a _ => M a) :
    Ensures (·.whole = whole) (Reader.listUntil close item) fun as _ => ∀ a ∈ as, M a := by
  have stays : ∀ {β : Type} {p : Reader β}, Ensures (·.whole = whole) p fun _ s => s.whole = whole :=
    fun _ hs _ s' _ => s'.2.whole.trans hs
  refine Ensures.strengthen (P := fun s => s.whole = whole ∧ ∀ a ∈ ([] : List α), M a) ?_ fun _ hs => ⟨hs, by simp⟩
  refine Ensures.collect (J := fun as s => s.whole = whole ∧ ∀ a ∈ as, M a) fun as => ?_
  refine .fix fun s hs => .eat_mark (fun _ => .pure fun _ _ => hs.2) fun _ => .known (P := (·.whole = whole)) hs.1 ?_
  refine .bind (stays.and h) fun a => .fix fun s' ⟨hwhole, ha⟩ => .known (P := (·.whole = whole)) hwhole ?_
  refine .bind stays fun closed => ?_
  extract_lets jp
  have more : ∀ u, Ensures (·.whole = whole) (jp u) fun o s' =>
      o.elim (∀ a ∈ as, M a) fun a => s'.whole = whole ∧ ∀ b ∈ as ++ [a], M b := by
    refine fun _ => .pure fun _ hs' => ⟨hs', fun b hb => ?_⟩
    rcases List.mem_append.1 hb with hb | hb
    · exact hs.2 b hb
    · rwa [List.mem_singleton.1 hb]
  split
  · exact more ()
  · exact .bind stays more

/-! ## Spans -/

section Spans

variable {F : Frame} {n : Nat} {ns : List Node} {s : ReadState}

/-- **An expression from the frame's begin to the end of the last token.** -/
theorem Built.of_span {e : Expr} (h : At F n ns s) (hn : F.lo ≤ n) (hspan : e.span = ⟨F.lo, s.previousEnd⟩)
    (hnodes : e.nodes.Subperm ns) (henc : e.Enclosed F.whole) : Built F e s := by
  have hhi : e.span.hi = s.previousEnd := by rw [hspan]
  refine ⟨Nat.le_of_eq (by rw [hspan]), ⟨?_, ?_, fun n hn => ?_, henc⟩, (h.sub hnodes).raise (Nat.le_of_eq hhi)⟩
  · rw [hspan]
    exact F.starts
  · rw [hspan]
    exact Nat.le_trans hn h.floor_le
  · rw [hspan]
    exact h.laid.within n (hnodes.subset hn)

/-- **An expression that is one token without nodes.** -/
theorem Built.token {e : Expr} {s' : ReadState} (h : At (.of s) s.token.span.hi [] s') (hspan : e.span = s.token.span)
    (hnodes : e.nodes = []) (henc : e.Enclosed s.whole) : Built (.of s) e s' := by
  refine ⟨Nat.le_of_eq (by rw [hspan]; rfl), ⟨?_, by rw [hspan]; exact s.placed.lo_le_hi, ?_, henc⟩, ?_⟩
  · rw [hspan]
    exact s.placed.source.boundary
  · rw [hnodes]
    simp
  · rwa [hnodes, hspan]

theorem At.passed (s : ReadState) : At (.of s) s.token.span.hi [] s.next :=
  ((At.of s).before s.before_next).raise (Nat.le_refl _)

/-! A stretch of reading seen from before its begin. -/

theorem At.widen {G : Frame} (h : At G n ns s) (hwhole : G.whole = F.whole) (hlo : F.lo ≤ G.lo) : At F n ns s := by
  refine ⟨h.whole.trans hwhole, Nat.le_trans hlo h.lo_le, h.floor_le, ?_⟩
  rw [← hwhole]
  exact h.laid.mono hlo (Nat.le_refl _)

theorem Built.widen {G : Frame} {e : Expr} (h : Built G e s) (hwhole : G.whole = F.whole) (hlo : F.lo ≤ G.lo) :
    Built F e s :=
  ⟨Nat.le_trans hlo h.lo_le, hwhole ▸ h.set, h.read.widen hwhole hlo⟩

/-- **An expression, or nothing yet.** -/
def Perhaps (F : Frame) (n : Nat) (o : Option Expr) (s : ReadState) : Prop := o.elim (At F n [] s) fun e => Built F e s

theorem Perhaps.widen {G : Frame} {o : Option Expr} (h : Perhaps G n o s) (hwhole : G.whole = F.whole)
    (hlo : F.lo ≤ G.lo) : Perhaps F n o s := by
  cases o with
  | none => exact At.widen h hwhole hlo
  | some e => exact Built.widen h hwhole hlo

theorem Ensures.restart {f : Nat → Reader β}
    (h : ∀ G : Frame, G.whole = F.whole → F.lo ≤ G.lo → Ensures (At G n []) (f G.lo) Q) :
    Ensures (At F n []) (Reader.here >>= f) Q :=
  .fix fun s hs => .look_here (.known ((At.of s).raise hs.floor_le) (h (.of s) hs.whole hs.lo_le))

theorem Built.ident {id : Ident} (h : At F n [.name id] s) : Built F (.ident id) s := by
  obtain ⟨hlo, hhi⟩ := h.laid.within _ (List.mem_singleton_self _)
  have hlt : id.span.lo < id.span.hi := h.laid.formed _ (List.mem_singleton_self _)
  have hstarts := h.laid.starts _ (List.mem_singleton_self _)
  refine ⟨hlo, ⟨hstarts, Nat.le_of_lt hlt, fun n hn => ?_, trivial⟩, h.raise hhi⟩
  obtain rfl := List.mem_singleton.1 hn
  exact ⟨Nat.le_refl _, Nat.le_refl _⟩

theorem Built.call {callee : Expr} {args : List Expr} (hlo : F.lo ≤ callee.span.lo) (hset : callee.Set F.whole)
    (h : At F callee.span.hi (callee.nodes ++ args.flatMap Expr.nodes) s)
    (hrow : Row F.whole callee.span.hi s.previousEnd args)
    (hclosed : (Node.call ⟨F.lo, s.previousEnd⟩ callee args).Closed F.whole) :
    Built F (.call ⟨F.lo, s.previousEnd⟩ callee args) s := by
  have hlaid : Laid F.whole F.lo s.previousEnd (Expr.call ⟨F.lo, s.previousEnd⟩ callee args).nodes :=
    h.laid.call F.starts ⟨hlo, h.floor_le, hset, hrow⟩ hclosed
  refine ⟨Nat.le_refl _, ⟨F.starts, ?_, hlaid.within, trivial⟩, ⟨h.whole, h.lo_le, Nat.le_refl _, hlaid⟩⟩
  exact Nat.le_trans hlo (Nat.le_trans hset.lo_le_hi h.floor_le)

theorem Ensures.built {p : Reader β} {e : Expr}
    (h : F.lo ≤ e.span.lo → e.Set F.whole → Ensures (At F e.span.hi e.nodes) p Q) : Ensures (Built F e) p Q :=
  fun s hs => h hs.lo_le hs.set s hs.read

theorem Ensures.span {lo : Nat} {g : Span → β} (h : ∀ s, P s → Q (g ⟨lo, s.previousEnd⟩) s) :
    Ensures P (Reader.spanFrom lo >>= fun span => Pure.pure (g span)) Q := by
  intro s hs b s' hb
  cases hb
  exact h s hs

theorem Ensures.eatMark {m : String} {f : Bool → Reader β} (hyes : Ensures (At F F.lo ns) (f true) Q)
    (hno : Ensures (At F n ns) (f false) Q) : Ensures (At F n ns) (Reader.eatMark m >>= f) Q := by
  refine .fix fun s hs => .eat_mark (fun _ => .known ?_ hyes) fun _ => .known hs hno
  exact (hs.before s.before_next).raise (Nat.le_trans hs.lo_le s.placed.lo_le_hi)

end Spans

end Source
end Localizer
