import Mathlib.Order.MinMax
import NavCheck.Proofs.Layout.Expressions
import NavCheck.Proofs.TokenOrder

/-!
# Packed tokens

Any tokens in order can be packed: each gets one byte, and a byte is left free only behind a dollar sign that does not touch
the token behind it. The packed tokens are the same for every layout, and each layout comes from them by pulling them apart,
which is a relocation that keeps the order of places. So what holds in all relocations of packed tokens holds in all layouts
alike.
-/

namespace NavCheck

/-! ## Pulling numbers apart -/

/-- How far a number is moved when numbers are moved up to given ones: as far as any of those that are not larger. -/
def slip (points : List (Nat × Nat)) (x : Nat) : Nat :=
  points.foldr (fun p far => if p.1 ≤ x then max (p.2 - p.1) far else far) 0

/-- Moves numbers up to given ones, and all others along with them. -/
def stretch (points : List (Nat × Nat)) (x : Nat) : Nat :=
  x + slip points x

section

variable {points : List (Nat × Nat)}

theorem slip_mono {x y : Nat} (h : x ≤ y) : slip points x ≤ slip points y := by
  induction points with
  | nil => exact Nat.le_refl _
  | cons p points ih =>
    simp only [slip, List.foldr_cons] at ih ⊢
    split
    · rw [if_pos (by omega)]
      omega
    · split <;> omega

theorem stretch_strictMono (points : List (Nat × Nat)) : StrictMono (stretch points) := by
  intro x y h
  have hs : slip points x ≤ slip points y := slip_mono (Nat.le_of_lt h)
  show x + slip points x < y + slip points y
  omega

theorem slip_le {x far : Nat} (h : ∀ p ∈ points, p.1 ≤ x → p.2 - p.1 ≤ far) : slip points x ≤ far := by
  induction points with
  | nil => exact Nat.zero_le _
  | cons p points ih =>
    rw [List.forall_mem_cons] at h
    have ih := ih h.2
    simp only [slip, List.foldr_cons] at ih ⊢
    split
    · have := h.1 ‹_›
      omega
    · exact ih

theorem le_slip {p : Nat × Nat} (hp : p ∈ points) : p.2 - p.1 ≤ slip points p.1 := by
  induction points with
  | nil => cases hp
  | cons q points ih =>
    simp only [slip, List.foldr_cons] at ih ⊢
    rcases List.mem_cons.1 hp with rfl | hp
    · rw [if_pos (Nat.le_refl _)]
      omega
    · have := ih hp
      split <;> omega

/-- A number goes where it is to go if none below it is moved farther. -/
theorem stretch_eq {p : Nat × Nat} (hp : p ∈ points) (hle : p.1 ≤ p.2)
    (h : ∀ q ∈ points, q.1 ≤ p.1 → q.2 + p.1 ≤ p.2 + q.1) : stretch points p.1 = p.2 := by
  have hl := le_slip hp
  have hg : slip points p.1 ≤ p.2 - p.1 := slip_le fun q hq hle => by
    have := h q hq hle
    omega
  show p.1 + slip points p.1 = p.2
  omega

/-- The first number stays where it is. -/
theorem stretch_zero (h : ∀ p ∈ points, 0 < p.1) : stretch points 0 = 0 := by
  have hs : slip points 0 ≤ 0 := slip_le fun p hp hle => absurd (h p hp) (by omega)
  show 0 + slip points 0 = 0
  omega

end

theorem Span.before_refl (s : Span) : s.before s = true := by
  simp [Span.before]

/-- Spans of one file that are each before the other are the same. -/
theorem Span.eq_of_before {a b : Span} (hf : a.file = b.file) (h : a.before b = true) (h' : b.before a = true) : a = b := by
  obtain ⟨f, x, y⟩ := a
  obtain ⟨f', x', y'⟩ := b
  simp only [Span.before, Bool.or_eq_true, Bool.and_eq_true, decide_eq_true_eq, beq_iff_eq] at h h'
  obtain rfl : x = x' := by omega
  obtain rfl : y = y' := by omega
  exact congrArg (Span.mk · x y) hf

namespace Relocation

variable {starts stops : Nat → Nat}

/-- Pulls the two ends of spans apart. The span that covers nothing at the front stays what it is. -/
def pulling (starts stops : Nat → Nat) : Relocation where
  span s := if s.start = 0 ∧ s.stop = 0 then s else ⟨s.file, starts s.start, stops s.stop⟩
  guard g := ⟨g.file, stops g.start, stops g.stop⟩

theorem pulling_span {s : Span} (h : ¬ (s.start = 0 ∧ s.stop = 0)) :
    (pulling starts stops).span s = ⟨s.file, starts s.start, stops s.stop⟩ :=
  if_neg h

theorem pulling_front {s : Span} (h : s.start = 0 ∧ s.stop = 0) : (pulling starts stops).span s = s :=
  if_pos h

theorem pulling_file (s : Span) : ((pulling starts stops).span s).file = s.file := by
  by_cases h : s.start = 0 ∧ s.stop = 0
  · rw [pulling_front h]
  · rw [pulling_span h]

theorem pulling_stop (hz : stops 0 = 0) (s : Span) : ((pulling starts stops).span s).stop = stops s.stop := by
  by_cases h : s.start = 0 ∧ s.stop = 0
  · rw [pulling_front h, h.2, hz]
  · rw [pulling_span h]

/-- Pulling apart keeps the order of places: both ends are moved by functions that increase, and nothing is moved to the
front. -/
theorem before_pulling (hs : StrictMono starts) (ht : StrictMono stops) (hz : stops 0 = 0) (a b : Span) :
    ((pulling starts stops).span a).before ((pulling starts stops).span b) = a.before b := by
  have hlt := hs.lt_iff_lt (a := a.start) (b := b.start)
  have heq := hs.injective.eq_iff (a := a.start) (b := b.start)
  have hle := ht.le_iff_le (a := a.stop) (b := b.stop)
  have ha := @hs 0 a.start
  have hb := @hs 0 b.start
  have hc := @ht 0 a.stop
  have hd := @ht 0 b.stop
  rw [Bool.eq_iff_iff]
  simp only [Span.before, Bool.or_eq_true, Bool.and_eq_true, decide_eq_true_eq, beq_iff_eq]
  by_cases h : a.start = 0 ∧ a.stop = 0 <;> by_cases h' : b.start = 0 ∧ b.stop = 0
  · rw [pulling_front h, pulling_front h']
  · rw [pulling_front h, pulling_span h']
    dsimp only
    omega
  · rw [pulling_span h, pulling_front h']
    dsimp only
    omega
  · rw [pulling_span h, pulling_span h']
    dsimp only
    omega

/-- What covers two spans goes where they go. -/
theorem pulling_join (hs : StrictMono starts) (ht : StrictMono stops) {a b : Span} (ha : 0 < a.stop) (hb : 0 < b.stop) :
    (pulling starts stops).span (a.join b) = ((pulling starts stops).span a).join ((pulling starts stops).span b) := by
  have hj : (a.join b).stop = max a.stop b.stop := rfl
  rw [pulling_span (by omega), pulling_span (by omega), pulling_span (by omega)]
  exact congr (congrArg (Span.mk a.file) hs.monotone.map_min) ht.monotone.map_max

theorem faithful_pulling (hs : StrictMono starts) (ht : StrictMono stops) (hz : stops 0 = 0) :
    (pulling starts stops).Faithful where
  span_injective s s' h := by
    have hfile : ((pulling starts stops).span s).file = s.file := pulling_file s
    rw [h, pulling_file] at hfile
    -- spans with one image are each before the other, since the image is before itself
    have hb := before_pulling hs ht hz s s'
    have hb' := before_pulling hs ht hz s' s
    rw [h, Span.before_refl] at hb hb'
    exact Span.eq_of_before hfile.symm hb.symm hb'.symm
  before := before_pulling hs ht hz
  guard_injective := by
    rintro ⟨f, a, b⟩ ⟨f', a', b'⟩ h
    injection h with hfile hstart hstop
    cases hfile
    cases ht.injective hstart
    cases ht.injective hstop
    rfl
  guard_between a b := by
    rw [pulling_file, pulling_stop hz, pulling_stop hz]
    rfl

end Relocation

/-! ## Packing -/

instance Token.decidableTouches (t : Token) : (ts : List Token) → Decidable (t.Touches ts)
  | [] => isTrue trivial
  | u :: _ => inferInstanceAs (Decidable (u.span.start = t.span.stop))

instance Token.decidableLike (t u : Token) : Decidable (t.Like u) :=
  inferInstanceAs (Decidable (_ ∧ _))

instance Alike.decidable : (ts us : List Token) → Decidable (Alike ts us)
  | [], [] => isTrue .nil
  | [], _ :: _ => isFalse nofun
  | _ :: _, [] => isFalse nofun
  | t :: ts, u :: us =>
    have := Alike.decidable ts us
    decidable_of_iff (t.Like u ∧ (t.kind = .punct .dollar → (t.Touches ts ↔ u.Touches us)) ∧ Alike ts us)
      ⟨fun h => .cons h.1 h.2.1 h.2.2, fun h => by cases h with | cons hl ht hs => exact ⟨hl, ht, hs⟩⟩

/-- The number of bytes that stay free behind a token that is packed. -/
def Token.gap (t : Token) (ts : List Token) : Nat :=
  if t.kind = .punct .dollar ∧ ¬ t.Touches ts then 1 else 0

/-- Tokens packed from a place of a file on. -/
def packed (file : Option Nat) (at₀ : Nat) : List Token → List Token
  | [] => []
  | t :: ts => { t with span := ⟨file, at₀, at₀ + 1⟩ } :: packed file (at₀ + 1 + t.gap ts) ts

theorem length_packed (file : Option Nat) (at₀ : Nat) (ts : List Token) : (packed file at₀ ts).length = ts.length := by
  induction ts generalizing at₀ with
  | nil => rfl
  | cons t ts ih => rw [packed, List.length_cons, List.length_cons, ih]

theorem stop_pos_packed {file : Option Nat} {at₀ : Nat} {ts : List Token} : ∀ t ∈ packed file at₀ ts, 0 < t.span.stop := by
  induction ts generalizing at₀ with
  | nil => exact List.forall_mem_nil _
  | cons t ts ih =>
    rw [packed]
    exact List.forall_mem_cons.2 ⟨Nat.succ_pos at₀, ih⟩

/-- Tokens that differ in layout only are packed in the same way. -/
theorem Alike.packed_eq {ts us : List Token} (h : Alike ts us) (file : Option Nat) (at₀ : Nat) :
    packed file at₀ ts = packed file at₀ us := by
  induction h generalizing at₀ with
  | nil => rfl
  | @cons t u ts us hl ht _ ih =>
    have hg : t.gap ts = u.gap us := by
      rw [Token.gap, Token.gap, ← hl.1]
      by_cases hk : t.kind = .punct .dollar
      · simp only [hk, true_and, ht hk]
      · simp only [hk, false_and]
    rw [packed, packed, hg, ih, hl.1, hl.2]

/-- Packed tokens have the layout of the tokens. -/
theorem alike_packed (file : Option Nat) (at₀ : Nat) (ts : List Token) : Alike (packed file at₀ ts) ts := by
  induction ts generalizing at₀ with
  | nil => exact .nil
  | cons t ts ih =>
    refine .cons ⟨rfl, rfl⟩ (fun hk => ?_) (ih _)
    have hk : t.kind = .punct .dollar := hk
    cases ts with
    | nil => exact Iff.rfl
    | cons u us =>
      show at₀ + 1 + t.gap (u :: us) = at₀ + 1 ↔ _
      rw [Token.gap]
      by_cases ht : t.Touches (u :: us) <;> simp [hk, ht]

/-- The tokens behind a token begin behind it, and behind the bytes that stay free when it is packed. -/
theorem InOrder.gap_le {t : Token} {ts : List Token} (h : InOrder (t :: ts)) :
    ∀ u ∈ ts, t.span.stop + t.gap ts ≤ u.span.start := by
  cases ts with
  | nil => exact List.forall_mem_nil _
  | cons first rest =>
    have hgap : t.gap (first :: rest) ≤ 1 ∧ (first.span.start = t.span.stop → t.gap (first :: rest) = 0) := by
      rw [Token.gap]
      constructor
      · split <;> omega
      · exact fun ht => if_neg fun h => h.2 ht
    obtain ⟨hf, hr⟩ := List.pairwise_cons.1 h.apart
    have hfirst := hf first List.mem_cons_self
    refine List.forall_mem_cons.2 ⟨by omega, fun u hu => ?_⟩
    have := (List.pairwise_cons.1 hr).1 u hu
    have := h.proper first (by simp)
    omega

/-- A packed token and the token it comes from. -/
def unpacking (file : Option Nat) (at₀ : Nat) (ts : List Token) : List (Token × Token) :=
  (packed file at₀ ts).zip ts

theorem unpacking_cons (file : Option Nat) (at₀ : Nat) (t : Token) (ts : List Token) :
    unpacking file at₀ (t :: ts) =
      ({ t with span := ⟨file, at₀, at₀ + 1⟩ }, t) :: unpacking file (at₀ + 1 + t.gap ts) ts := rfl

/-- A packed token has one byte, and it is the token it comes from in another place. -/
theorem of_mem_unpacking {file : Option Nat} {at₀ : Nat} {ts : List Token} : ∀ p ∈ unpacking file at₀ ts,
    p.1 = { p.2 with span := ⟨file, p.1.span.start, p.1.span.start + 1⟩ } ∧ p.2 ∈ ts := by
  induction ts generalizing at₀ with
  | nil => exact List.forall_mem_nil _
  | cons t ts ih =>
    rw [unpacking_cons]
    exact List.forall_mem_cons.2 ⟨⟨rfl, List.mem_cons_self⟩, fun p hp => ⟨(ih p hp).1, List.mem_cons_of_mem t (ih p hp).2⟩⟩

/-- Unpacking moves every end of a token at least as far as the tokens as a whole are moved. -/
theorem unpacking_far {file : Option Nat} {ts : List Token} (h : InOrder ts) {at₀ low : Nat} (hl : at₀ ≤ low)
    (hts : ∀ t ∈ ts, low ≤ t.span.start) : ∀ p ∈ unpacking file at₀ ts,
      at₀ ≤ p.1.span.start ∧ low + p.1.span.start ≤ at₀ + p.2.span.start ∧
        low + p.1.span.stop ≤ at₀ + p.2.span.stop := by
  induction ts generalizing at₀ low with
  | nil => exact List.forall_mem_nil _
  | cons t ts ih =>
    have ht := hts t List.mem_cons_self
    have hp := h.proper t List.mem_cons_self
    rw [unpacking_cons]
    refine List.forall_mem_cons.2 ⟨?_, fun p hin => ?_⟩
    · dsimp only
      omega
    · have hl : at₀ + 1 + t.gap ts ≤ t.span.stop + t.gap ts := by omega
      have := ih (h.sublist (List.sublist_cons_self t ts)) hl h.gap_le p hin
      omega

/-- Later tokens are moved at least as far by unpacking as earlier ones. -/
theorem unpacking_increases {file : Option Nat} {ts : List Token} (h : InOrder ts) {at₀ : Nat}
    (hts : ∀ t ∈ ts, at₀ ≤ t.span.start) : ∀ p ∈ unpacking file at₀ ts, ∀ q ∈ unpacking file at₀ ts,
      q.1.span.start ≤ p.1.span.start →
        q.2.span.start + p.1.span.start ≤ p.2.span.start + q.1.span.start ∧
          q.2.span.stop + p.1.span.stop ≤ p.2.span.stop + q.1.span.stop := by
  induction ts generalizing at₀ with
  | nil => exact List.forall_mem_nil _
  | cons t ts ih =>
    have ht := hts t List.mem_cons_self
    have hp := h.proper t List.mem_cons_self
    have hs := h.sublist (List.sublist_cons_self t ts)
    have hl : at₀ + 1 + t.gap ts ≤ t.span.stop + t.gap ts := by omega
    have far := @unpacking_far file ts hs _ _ hl h.gap_le
    rw [unpacking_cons]
    intro p hin q hiq hle
    rcases List.mem_cons.1 hin with rfl | hin <;> rcases List.mem_cons.1 hiq with rfl | hiq
    · exact ⟨Nat.le_refl _, Nat.le_refl _⟩
    · have := far q hiq
      dsimp only at hle
      omega
    · have := far p hin
      dsimp only
      omega
    · refine ih hs (fun u hu => ?_) p hin q hiq hle
      have := h.gap_le u hu
      omega

/-- The relocation that takes packed tokens to the tokens. -/
def unpack (file : Option Nat) (ts : List Token) : Relocation :=
  .pulling (stretch ((unpacking file 0 ts).map fun p => (p.1.span.start, p.2.span.start)))
    (stretch ((unpacking file 0 ts).map fun p => (p.1.span.stop, p.2.span.stop)))

theorem faithful_unpack (file : Option Nat) (ts : List Token) : (unpack file ts).Faithful := by
  refine Relocation.faithful_pulling (stretch_strictMono _) (stretch_strictMono _) (stretch_zero fun q hq => ?_)
  obtain ⟨p, hp, rfl⟩ := List.mem_map.1 hq
  rw [(of_mem_unpacking p hp).1]
  exact Nat.succ_pos _

/-- What a function makes of the first of two lists, pair by pair. -/
theorem map_of_zip {α β : Type} {f : α → β} {l : List α} {l' : List β} (hl : l.length = l'.length)
    (h : ∀ p ∈ l.zip l', f p.1 = p.2) : l.map f = l' := by
  induction l generalizing l' with
  | nil => exact (List.length_eq_zero_iff.1 hl.symm).symm
  | cons a l ih =>
    cases l' with
    | nil => cases hl
    | cons b l' =>
      rw [List.zip_cons_cons, List.forall_mem_cons] at h
      rw [List.map_cons, h.1, ih (Nat.succ.inj hl) h.2]

/-- Packed tokens are unpacked to the tokens. -/
theorem map_unpack {file : Option Nat} {ts : List Token} (h : InOrder ts) (hf : ∀ t ∈ ts, t.span.file = file) :
    (packed file 0 ts).map (move (unpack file ts)) = ts := by
  refine map_of_zip (length_packed file 0 ts) fun p hp => ?_
  have hp : p ∈ unpacking file 0 ts := hp
  obtain ⟨he, hin⟩ := of_mem_unpacking p hp
  have hstop : p.1.span.stop = p.1.span.start + 1 := congrArg (·.span.stop) he
  obtain ⟨-, hlow, hlow'⟩ := unpacking_far h (Nat.le_refl 0) (fun _ _ => Nat.zero_le _) p hp
  have increases := @unpacking_increases file ts h 0 (fun _ _ => Nat.zero_le _)
  have hstart : stretch ((unpacking file 0 ts).map fun p => (p.1.span.start, p.2.span.start)) p.1.span.start =
      p.2.span.start :=
    stretch_eq (p := (p.1.span.start, p.2.span.start)) (List.mem_map_of_mem hp) (by dsimp only; omega) fun r hr hle => by
      obtain ⟨q, hq, rfl⟩ := List.mem_map.1 hr
      exact (increases p hp q hq hle).1
  have hend : stretch ((unpacking file 0 ts).map fun p => (p.1.span.stop, p.2.span.stop)) p.1.span.stop = p.2.span.stop :=
    stretch_eq (p := (p.1.span.stop, p.2.span.stop)) (List.mem_map_of_mem hp) (by dsimp only; omega) fun r hr hle => by
      obtain ⟨q, hq, rfl⟩ := List.mem_map.1 hr
      have : q.1.span.stop = q.1.span.start + 1 := congrArg (·.span.stop) (of_mem_unpacking q hq).1
      exact (increases p hp q hq (by dsimp only at hle; omega)).2
  have hspan : (unpack file ts).span p.1.span = p.2.span := by
    rw [unpack, Relocation.pulling_span (by omega), hstart, hend]
    have hfile : p.1.span.file = p.2.span.file := (congrArg (·.span.file) he).trans (hf p.2 hin).symm
    rw [hfile]
  show { p.1 with span := (unpack file ts).span p.1.span } = p.2
  rw [hspan, he]

/-- Packed tokens can be read in the place of the tokens. -/
theorem suits_unpack {file : Option Nat} {ts : List Token} (h : InOrder ts) (hf : ∀ t ∈ ts, t.span.file = file) :
    (unpack file ts).Suits (packed file 0 ts) where
  span_default := Relocation.pulling_front ⟨rfl, rfl⟩
  span_join t ht u hu :=
    Relocation.pulling_join (stretch_strictMono _) (stretch_strictMono _) (stop_pos_packed t ht) (stop_pos_packed u hu)
  alike := by
    rw [map_unpack h hf]
    exact alike_packed file 0 ts

end NavCheck
