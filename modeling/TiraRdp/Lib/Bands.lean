import Mathlib.Data.Set.Insert
import Mathlib.Order.MinMax
import TiraRdp.Lib.Intervals

/-!
# Sets of points in bands

A set of points over a linear order, kept as bands from top to bottom, and each band as intervals
from left to right. Everything is half open.

* `Band`, `points`, `Banded`: bands, their points, and bands that are in order and do not overlap.
* `Band.unite`, `gap`, `uniteAll`, `uniteRect`: a rectangle more, band by band, with the pieces of
  it that lie between two bands, above and below.
* `coalesce`: bands that touch and have the same intervals are put together.
* `clipAll`: what lies in a rectangle.
* `Box`: the smallest rectangle around a set, told by all the rectangles that contain it.

Results: uniting adds the points of the rectangle (`points_uniteRect`), keeps the bands in order
(`Banded.uniteRect`) and needs at most four rectangles for each there was
(`uniteRect_length_le`); coalescing changes no point (`points_coalesce`), keeps the order
(`Banded.coalesce`) and leaves nothing to coalesce (`coalesced_coalesce`); clipping intersects
(`points_clipAll`).
-/

namespace TiraRdp.Lib.Bands

variable {α : Type} [LinearOrder α]

/-- A rectangle, half open. -/
structure Rect (α : Type) where
  left : α
  top : α
  right : α
  bottom : α
  deriving Repr, DecidableEq

namespace Rect

def points (r : Rect α) : Set (α × α) :=
  {p | r.left ≤ p.1 ∧ p.1 < r.right ∧ r.top ≤ p.2 ∧ p.2 < r.bottom}

/-- Neither side is empty, or the wrong way round. -/
structure Proper (r : Rect α) : Prop where
  wide : r.left < r.right
  high : r.top < r.bottom

end Rect

/-- The points of some rectangles. -/
def area (rects : List (Rect α)) : Set (α × α) := {p | ∃ r ∈ rects, p ∈ r.points}

/-- Intervals, and the rows they are in. -/
structure Band (α : Type) where
  top : α
  bottom : α
  items : List (α × α)
  deriving Repr, DecidableEq

namespace Band

def points (b : Band α) : Set (α × α) := {p | Covers b.items p.1 ∧ b.top ≤ p.2 ∧ p.2 < b.bottom}

/-- There are rows and intervals, and these are in order. -/
structure Proper (b : Band α) : Prop where
  high : b.top < b.bottom
  nonempty : b.items ≠ []
  apart : Apart b.items

omit [LinearOrder α] in
/-- A rectangle for each interval. -/
def rects (b : Band α) : List (Rect α) := b.items.map fun i => ⟨i.1, b.top, i.2, b.bottom⟩

/-- An interval of the band has all of the rectangle. -/
def Contains (b : Band α) (r : Rect α) : Prop :=
  b.top ≤ r.top ∧ r.bottom ≤ b.bottom ∧ ∃ i ∈ b.items, i.1 ≤ r.left ∧ r.right ≤ i.2

instance (b : Band α) (r : Rect α) : Decidable (b.Contains r) :=
  inferInstanceAs (Decidable (_ ∧ _ ∧ _))

/-- The rectangle does not change the band: it lies below or above, or in the band already. -/
def Passes (b : Band α) (r : Rect α) : Prop := b.bottom ≤ r.top ∨ r.bottom ≤ b.top ∨ b.Contains r

instance (b : Band α) (r : Rect α) : Decidable (b.Passes r) :=
  inferInstanceAs (Decidable (_ ∨ _ ∨ _))

/-- A rectangle more in the rows of a band: what is above it, what they share, what is below it. -/
def unite (r : Rect α) (b : Band α) : List (Band α) :=
  if b.Passes r then [b]
  else
    (if b.top < r.top then [⟨b.top, r.top, b.items⟩] else []) ++
      ⟨max b.top r.top, min b.bottom r.bottom, merge r.left r.right b.items⟩ ::
      (if r.bottom < b.bottom then [⟨r.bottom, b.bottom, b.items⟩] else [])

end Band

/-- The points of some bands. -/
def points (bs : List (Band α)) : Set (α × α) := {p | ∃ b ∈ bs, p ∈ b.points}

/-- Proper bands, from top to bottom. -/
structure Banded (bs : List (Band α)) : Prop where
  proper : ∀ b ∈ bs, b.Proper
  ordered : bs.Pairwise fun a b => a.bottom ≤ b.top

/-- Bands between two rows. -/
structure Spans (top bottom : α) (bs : List (Band α)) : Prop where
  banded : Banded bs
  within : ∀ b ∈ bs, top ≤ b.top ∧ b.bottom ≤ bottom

/-- The piece of a rectangle between a band and the next. -/
def gap (r : Rect α) (b : Band α) : List (Band α) → List (Band α)
  | [] => []
  | next :: _ =>
    if next.top ≠ b.bottom ∧ b.bottom < r.bottom ∧ r.top < next.top then
      [⟨max b.bottom r.top, min next.top r.bottom, [(r.left, r.right)]⟩]
    else []

/-- A rectangle more in the rows that the bands span. -/
def uniteAll (r : Rect α) : List (Band α) → List (Band α)
  | [] => []
  | b :: bs => b.unite r ++ gap r b bs ++ uniteAll r bs

/-- The piece of a rectangle in some rows. -/
def rows (r : Rect α) (top bottom : α) : Set (α × α) := {p ∈ r.points | top ≤ p.2 ∧ p.2 < bottom}

section Points

variable {b : Band α} {bs cs : List (Band α)} {r : Rect α} {p : α × α} {top middle bottom : α}

@[simp] theorem mem_points_nil : p ∉ points ([] : List (Band α)) :=
  fun ⟨_, hb, _⟩ => absurd hb List.not_mem_nil

@[simp] theorem mem_points_cons : p ∈ points (b :: bs) ↔ p ∈ b.points ∨ p ∈ points bs := by
  simp [points]

@[simp] theorem mem_points_append : p ∈ points (bs ++ cs) ↔ p ∈ points bs ∨ p ∈ points cs := by
  simp only [points, Set.mem_ofPred_eq, List.mem_append, or_and_right, exists_or]

theorem mem_band : p ∈ b.points ↔ Covers b.items p.1 ∧ b.top ≤ p.2 ∧ p.2 < b.bottom := Iff.rfl

theorem mem_rect : p ∈ r.points ↔ r.left ≤ p.1 ∧ p.1 < r.right ∧ r.top ≤ p.2 ∧ p.2 < r.bottom :=
  Iff.rfl

theorem mem_rows : p ∈ rows r top bottom ↔ p ∈ r.points ∧ top ≤ p.2 ∧ p.2 < bottom := Iff.rfl

/-- The rectangles of a band have its points. -/
theorem area_rects : area (bs.flatMap Band.rects) = points bs := by
  ext p
  simp only [area, points, Set.mem_ofPred_eq, List.mem_flatMap, Band.rects, List.mem_map]
  constructor
  · rintro ⟨_, ⟨b, hb, i, hi, rfl⟩, hleft, hright, htop, hbottom⟩
    exact ⟨b, hb, ⟨i, hi, hleft, hright⟩, htop, hbottom⟩
  · rintro ⟨b, hb, ⟨i, hi, hleft, hright⟩, htop, hbottom⟩
    exact ⟨_, ⟨b, hb, i, hi, rfl⟩, hleft, hright, htop, hbottom⟩

/-- In the rows of a band, uniting adds the rectangle. -/
theorem points_unite (hb : b.Proper) (hr : r.Proper) :
    points (b.unite r) = b.points ∪ rows r b.top b.bottom := by
  have hmerge (x : α) := covers_merge (x := x) hb.apart hr.wide
  ext p
  rw [Set.mem_union, mem_rows, mem_rect]
  unfold Band.unite
  by_cases hpass : b.Passes r
  · rw [if_pos hpass, mem_points_cons]
    simp only [mem_points_nil, or_false]
    refine ⟨Or.inl, fun h => h.elim id ?_⟩
    rintro ⟨⟨hleft, hright, htop, hbottom⟩, htop', hbottom'⟩
    rcases hpass with habove | hbelow | ⟨-, -, i, hi, hstart, hend⟩
    · exact absurd (hbottom'.trans_le habove) (not_lt.mpr htop)
    · exact absurd (hbottom.trans_le hbelow) (not_lt.mpr htop')
    · exact ⟨⟨i, hi, hstart.trans hleft, hright.trans_le hend⟩, htop', hbottom'⟩
  · have hover : r.top < b.bottom ∧ b.top < r.bottom :=
      ⟨not_le.mp fun h => hpass (Or.inl h), not_le.mp fun h => hpass (Or.inr (Or.inl h))⟩
    rw [if_neg hpass, mem_points_append, mem_points_cons, mem_band, mem_band]
    have hx := hmerge p.1
    split <;> split <;> simp only [mem_points_cons, mem_points_nil, mem_band] <;> grind

/-- What the bands after a band span: from the next on, and nothing when there is none. -/
def nextTop (b : Band α) : List (Band α) → α
  | [] => b.bottom
  | next :: _ => next.top

/-- The lower end of the last band. -/
def lastBottom (b : Band α) : List (Band α) → α
  | [] => b.bottom
  | next :: bs => lastBottom next bs

omit [LinearOrder α] in
theorem exists_lastBottom (b : Band α) (bs : List (Band α)) :
    ∃ c ∈ b :: bs, c.bottom = lastBottom b bs := by
  induction bs generalizing b with
  | nil => exact ⟨b, List.mem_cons_self, rfl⟩
  | cons next bs ih =>
    obtain ⟨c, hc, heq⟩ := ih next
    exact ⟨c, List.mem_cons_of_mem b hc, heq⟩

theorem banded_cons : Banded (b :: bs) ↔ b.Proper ∧ (∀ c ∈ bs, b.bottom ≤ c.top) ∧ Banded bs := by
  constructor
  · intro h
    obtain ⟨hfirst, hrest⟩ := List.pairwise_cons.mp h.ordered
    exact ⟨h.proper b List.mem_cons_self, hfirst,
      ⟨fun c hc => h.proper c (List.mem_cons_of_mem b hc), hrest⟩⟩
  · rintro ⟨hb, hfirst, hrest⟩
    exact ⟨List.forall_mem_cons.mpr ⟨hb, hrest.proper⟩,
      List.pairwise_cons.mpr ⟨hfirst, hrest.ordered⟩⟩

theorem Banded.nil : Banded ([] : List (Band α)) :=
  ⟨fun _ hb => absurd hb List.not_mem_nil, List.Pairwise.nil⟩

theorem Banded.next_le (h : Banded (b :: bs)) : b.bottom ≤ nextTop b bs := by
  cases bs with
  | nil => exact le_rfl
  | cons next bs => exact (banded_cons.mp h).2.1 next List.mem_cons_self

theorem Banded.le_last (h : Banded (b :: bs)) : nextTop b bs ≤ lastBottom b bs := by
  induction bs generalizing b with
  | nil => exact le_rfl
  | cons next bs ih =>
    obtain ⟨-, -, hrest⟩ := banded_cons.mp h
    have hnext := (banded_cons.mp hrest).1
    exact hnext.high.le.trans (hrest.next_le.trans (ih hrest))

/-- The bands lie between the upper end of the first and the lower end of the last. -/
theorem Banded.spans (h : Banded (b :: bs)) : Spans b.top (lastBottom b bs) (b :: bs) := by
  refine ⟨h, ?_⟩
  induction bs generalizing b with
  | nil =>
    intro c hc
    obtain rfl := List.mem_singleton.mp hc
    exact ⟨le_rfl, le_rfl⟩
  | cons next bs ih =>
    obtain ⟨hb, hfirst, hrest⟩ := banded_cons.mp h
    have hle := hrest.le_last
    have hnext := hrest.next_le
    have htop := (banded_cons.mp hrest).1.high
    have hbelow := hfirst next List.mem_cons_self
    refine List.forall_mem_cons.mpr ⟨⟨le_rfl, ?_⟩, fun c hc => ?_⟩
    · exact hbelow.trans (htop.le.trans (hnext.trans hle))
    · obtain ⟨hc₁, hc₂⟩ := ih hrest c hc
      exact ⟨hb.high.le.trans (hbelow.trans hc₁), hc₂⟩

theorem Spans.nil : Spans top bottom ([] : List (Band α)) :=
  ⟨.nil, fun _ hb => absurd hb List.not_mem_nil⟩

theorem Spans.singleton (hb : b.Proper) (htop : top ≤ b.top) (hbottom : b.bottom ≤ bottom) :
    Spans top bottom [b] := by
  refine ⟨banded_cons.mpr ⟨hb, fun _ hc => absurd hc List.not_mem_nil, .nil⟩, fun c hc => ?_⟩
  obtain rfl := List.mem_singleton.mp hc
  exact ⟨htop, hbottom⟩

/-- Bands below bands. -/
theorem Spans.append (h : Spans top middle bs) (h' : Spans middle bottom cs) (hle : top ≤ middle)
    (hle' : middle ≤ bottom) : Spans top bottom (bs ++ cs) := by
  refine ⟨⟨List.forall_mem_append.mpr ⟨h.banded.proper, h'.banded.proper⟩,
    List.pairwise_append.mpr ⟨h.banded.ordered, h'.banded.ordered, ?_⟩⟩,
    List.forall_mem_append.mpr ⟨?_, ?_⟩⟩
  · exact fun b hb c hc => (h.within b hb).2.trans (h'.within c hc).1
  · exact fun b hb => ⟨(h.within b hb).1, (h.within b hb).2.trans hle'⟩
  · exact fun c hc => ⟨hle.trans (h'.within c hc).1, (h'.within c hc).2⟩

/-- Uniting stays in the rows of the band. -/
theorem Spans.unite (hb : b.Proper) (hr : r.Proper) : Spans b.top b.bottom (b.unite r) := by
  unfold Band.unite
  by_cases hpass : b.Passes r
  · rw [if_pos hpass]
    exact .singleton hb le_rfl le_rfl
  · rw [if_neg hpass]
    have habove : r.top < b.bottom := not_le.mp fun h => hpass (Or.inl h)
    have hbelow : b.top < r.bottom := not_le.mp fun h => hpass (Or.inr (Or.inl h))
    have hhigh := hb.high
    have hrhigh := hr.high
    have hmerged : Band.Proper ⟨max b.top r.top, min b.bottom r.bottom,
        merge r.left r.right b.items⟩ :=
      ⟨max_lt (lt_min hhigh hbelow) (lt_min habove hrhigh), merge_ne_nil, hb.apart.merge hr.wide⟩
    have hsplit : Spans b.top (max b.top r.top)
        (if b.top < r.top then [(⟨b.top, r.top, b.items⟩ : Band α)] else []) := by
      split
      · next h => exact .singleton ⟨h, hb.nonempty, hb.apart⟩ le_rfl (le_max_right _ _)
      · exact .nil
    have hrest : Spans (min b.bottom r.bottom) b.bottom
        (if r.bottom < b.bottom then [(⟨r.bottom, b.bottom, b.items⟩ : Band α)] else []) := by
      split
      · next h => exact .singleton ⟨h, hb.nonempty, hb.apart⟩ (min_le_right _ _) le_rfl
      · exact .nil
    have hmiddle := (Spans.singleton hmerged le_rfl le_rfl).append hrest hmerged.high.le
      (min_le_left _ _)
    exact hsplit.append hmiddle (le_max_left _ _) (hmerged.high.le.trans (min_le_left _ _))

/-- The piece between two bands. -/
theorem points_gap (h : Banded (b :: bs)) :
    points (gap r b bs) = rows r b.bottom (nextTop b bs) := by
  have hle := h.next_le
  ext p
  cases bs with
  | nil =>
    rw [gap, nextTop, mem_rows]
    simp only [mem_points_nil, false_iff]
    rintro ⟨-, hge, hlt⟩
    exact absurd hlt (not_lt.mpr hge)
  | cons next bs =>
    rw [nextTop] at hle
    rw [gap, nextTop, mem_rows, mem_rect]
    split
    · simp only [mem_points_cons, mem_points_nil, mem_band, covers_cons, covers_nil]
      grind
    · simp only [mem_points_nil]
      grind

theorem Spans.gap (hr : r.Proper) (h : Banded (b :: bs)) :
    Spans b.bottom (nextTop b bs) (gap r b bs) := by
  have hle := h.next_le
  cases bs with
  | nil => exact .nil
  | cons next bs =>
    rw [nextTop] at hle
    rw [Bands.gap, nextTop]
    split
    · next hcond =>
      obtain ⟨hne, hbottom, htop⟩ := hcond
      refine .singleton ⟨?_, List.cons_ne_nil _ _, apart_cons.mpr ⟨hr.wide, fun _ hj => ?_,
        apart_nil⟩⟩ (le_max_left _ _) (min_le_left _ _)
      · exact max_lt (lt_min (lt_of_le_of_ne hle (Ne.symm hne)) hbottom) (lt_min htop hr.high)
      · exact absurd hj List.not_mem_nil
    · exact .nil

/-- **Uniting adds the rows of the rectangle that the bands span.** -/
theorem points_uniteAll (hr : r.Proper) (h : Banded (b :: bs)) :
    points (uniteAll r (b :: bs)) = points (b :: bs) ∪ rows r b.top (lastBottom b bs) := by
  induction bs generalizing b with
  | nil =>
    obtain ⟨hb, -, -⟩ := banded_cons.mp h
    ext p
    rw [uniteAll, uniteAll, mem_points_append, mem_points_append, points_unite hb hr, gap,
      Set.mem_union, Set.mem_union, mem_points_cons, lastBottom]
    simp
  | cons next bs ih =>
    obtain ⟨hb, -, hrest⟩ := banded_cons.mp h
    have hle := h.next_le
    have hlast := hrest.le_last
    have hhigh := (banded_cons.mp hrest).1.high
    have hnext := hrest.next_le
    have hbhigh := hb.high
    ext p
    rw [uniteAll, mem_points_append, mem_points_append, points_unite hb hr, points_gap h,
      ih hrest, Set.mem_union, Set.mem_union, Set.mem_union, lastBottom]
    rw [nextTop] at hle ⊢
    simp only [mem_rows, mem_points_cons]
    grind

theorem Spans.uniteAll (hr : r.Proper) (h : Banded (b :: bs)) :
    Spans b.top (lastBottom b bs) (uniteAll r (b :: bs)) := by
  induction bs generalizing b with
  | nil =>
    obtain ⟨hb, -, -⟩ := banded_cons.mp h
    rw [Bands.uniteAll, Bands.uniteAll, Bands.gap, List.append_nil, List.append_nil]
    exact .unite hb hr
  | cons next bs ih =>
    obtain ⟨hb, -, hrest⟩ := banded_cons.mp h
    have hhigh := (banded_cons.mp hrest).1.high
    have hunited := (Spans.unite hb hr).append (.gap hr h) hb.high.le h.next_le
    exact hunited.append (ih hrest) (hb.high.le.trans h.next_le)
      (hhigh.le.trans (hrest.next_le.trans hrest.le_last))

/-! ## The whole rectangle -/

/-- The smallest rectangle that contains a set, told by all that do. -/
def Box (r : Rect α) (s : Set (α × α)) : Prop :=
  ∀ c : Rect α, s ⊆ c.points ↔
    c.left ≤ r.left ∧ r.right ≤ c.right ∧ c.top ≤ r.top ∧ r.bottom ≤ c.bottom

/-- The smallest rectangle around two. -/
def Rect.around (r q : Rect α) : Rect α :=
  ⟨min r.left q.left, min r.top q.top, max r.right q.right, max r.bottom q.bottom⟩

theorem Rect.Proper.box (hr : r.Proper) : Box r r.points := by
  intro c
  constructor
  · intro h
    have hwide := hr.wide
    have hhigh := hr.high
    -- the corners, and the points that would be left out
    have hcorner : (r.left, r.top) ∈ c.points := h ⟨le_rfl, hwide, le_rfl, hhigh⟩
    obtain ⟨hleft, hright, htop, hbottom⟩ := mem_rect.mp hcorner
    refine ⟨hleft, not_lt.mp fun hlt => ?_, htop, not_lt.mp fun hlt => ?_⟩
    · have hmem : (c.right, r.top) ∈ c.points := h ⟨hright.le, hlt, le_rfl, hhigh⟩
      exact lt_irrefl _ (mem_rect.mp hmem).2.1
    · have hmem : (r.left, c.bottom) ∈ c.points := h ⟨le_rfl, hwide, hbottom.le, hlt⟩
      exact lt_irrefl _ (mem_rect.mp hmem).2.2.2
  · rintro ⟨hleft, hright, htop, hbottom⟩ p ⟨h₁, h₂, h₃, h₄⟩
    exact ⟨hleft.trans h₁, h₂.trans_le hright, htop.trans h₃, h₄.trans_le hbottom⟩

theorem Box.subset {s : Set (α × α)} (h : Box r s) : s ⊆ r.points :=
  (h r).mpr ⟨le_rfl, le_rfl, le_rfl, le_rfl⟩

theorem Box.union {q : Rect α} {s t : Set (α × α)} (h : Box r s) (h' : Box q t) :
    Box (r.around q) (s ∪ t) := by
  intro c
  rw [Set.union_subset_iff, h c, h' c]
  simp only [Rect.around, le_min_iff, max_le_iff]
  tauto

theorem Box.eq {q : Rect α} {s : Set (α × α)} (h : Box r s) (h' : Box q s) : r = q := by
  obtain ⟨h₁, h₂, h₃, h₄⟩ := (h' r).mp h.subset
  obtain ⟨h₅, h₆, h₇, h₈⟩ := (h q).mp h'.subset
  cases r
  cases q
  simp only [Rect.mk.injEq]
  exact ⟨le_antisymm h₁ h₅, le_antisymm h₃ h₇, le_antisymm h₆ h₂, le_antisymm h₈ h₄⟩

/-- A band of a set lies in the rows of its box. -/
theorem Box.rows (h : Box r (points bs)) {c : Band α} (hc : c ∈ bs) (hproper : c.Proper) :
    r.top ≤ c.top ∧ c.bottom ≤ r.bottom := by
  obtain ⟨i, hi⟩ := List.exists_mem_of_ne_nil _ hproper.nonempty
  have hitem : Rect.Proper ⟨i.1, c.top, i.2, c.bottom⟩ :=
    ⟨hproper.apart.nonempty i hi, hproper.high⟩
  have hsubset : Rect.points ⟨i.1, c.top, i.2, c.bottom⟩ ⊆ r.points := by
    rintro p ⟨h₁, h₂, h₃, h₄⟩
    exact h.subset ⟨c, hc, ⟨i, hi, h₁, h₂⟩, h₃, h₄⟩
  exact ((hitem.box r).mp hsubset).2.2

/-- The box of bands ends where the first starts and the last ends. -/
theorem Box.ends (h : Box r (points (b :: bs))) (hbs : Banded (b :: bs)) :
    r.top = b.top ∧ r.bottom = lastBottom b bs := by
  have hspans := hbs.spans
  have hinside : points (b :: bs) ⊆ Rect.points ⟨r.left, b.top, r.right, lastBottom b bs⟩ := by
    intro p hp
    obtain ⟨hleft, hright, -, -⟩ := h.subset hp
    obtain ⟨c, hc, -, htop, hbottom⟩ := hp
    obtain ⟨hc₁, hc₂⟩ := hspans.within c hc
    exact ⟨hleft, hright, hc₁.trans htop, hbottom.trans_le hc₂⟩
  obtain ⟨-, -, htop, hbottom⟩ := (h _).mp hinside
  refine ⟨le_antisymm (h.rows List.mem_cons_self (hbs.proper b List.mem_cons_self)).1 htop,
    le_antisymm hbottom ?_⟩
  obtain ⟨c, hc, heq⟩ := exists_lastBottom b bs
  exact heq ▸ (h.rows hc (hbs.proper c hc)).2

/-- A rectangle more: what is above the bands, the rows they span, what is below them. -/
def uniteRect (r box : Rect α) (bs : List (Band α)) : List (Band α) :=
  (if r.top < box.top then [⟨r.top, min box.top r.bottom, [(r.left, r.right)]⟩] else []) ++
    uniteAll r bs ++
    (if box.bottom < r.bottom then [⟨max box.bottom r.top, r.bottom, [(r.left, r.right)]⟩] else [])

theorem proper_piece (hr : r.Proper) (h : top < bottom) :
    Band.Proper ⟨top, bottom, [(r.left, r.right)]⟩ where
  high := h
  nonempty := List.cons_ne_nil _ _
  apart := apart_cons.mpr ⟨hr.wide, fun _ hj => absurd hj List.not_mem_nil, apart_nil⟩

/-- **Uniting with a rectangle.** -/
theorem points_uniteRect {box : Rect α} (hr : r.Proper) (h : Banded (b :: bs))
    (hbox : Box box (points (b :: bs))) :
    points (uniteRect r box (b :: bs)) = points (b :: bs) ∪ r.points := by
  obtain ⟨htop, hbottom⟩ := hbox.ends h
  have hle : b.top < lastBottom b bs :=
    (banded_cons.mp h).1.high.trans_le (h.next_le.trans h.le_last)
  ext p
  rw [uniteRect, mem_points_append, mem_points_append, points_uniteAll hr h, Set.mem_union,
    Set.mem_union, mem_rows, mem_rect, htop, hbottom]
  split <;> split <;>
    simp only [mem_points_nil, mem_points_cons, mem_band, covers_cons, covers_nil] <;> grind

theorem Banded.uniteRect {box : Rect α} (hr : r.Proper) (h : Banded (b :: bs))
    (hbox : Box box (points (b :: bs))) : Banded (uniteRect r box (b :: bs)) := by
  obtain ⟨htop, hbottom⟩ := hbox.ends h
  have hle : b.top < lastBottom b bs :=
    (banded_cons.mp h).1.high.trans_le (h.next_le.trans h.le_last)
  have habove : Spans (min r.top b.top) b.top
      (if r.top < box.top then
        [(⟨r.top, min box.top r.bottom, [(r.left, r.right)]⟩ : Band α)] else []) := by
    split
    · next hlt =>
      exact .singleton (proper_piece hr (lt_min hlt hr.high)) (min_le_left _ _)
        ((min_le_left _ _).trans htop.le)
    · exact .nil
  have hbelow : Spans (lastBottom b bs) (max r.bottom (lastBottom b bs))
      (if box.bottom < r.bottom then
        [(⟨max box.bottom r.top, r.bottom, [(r.left, r.right)]⟩ : Band α)] else []) := by
    split
    · next hlt =>
      exact .singleton (proper_piece hr (max_lt hlt hr.high)) (hbottom.ge.trans (le_max_left _ _))
        (le_max_left _ _)
    · exact .nil
  have hupper := habove.append (.uniteAll hr h) (min_le_right _ _) hle.le
  exact (hupper.append hbelow ((min_le_right _ _).trans hle.le) (le_max_right _ _)).banded

/-! ## Coalescing -/

/-- The bands touch and have the same intervals. -/
def Band.Joins (a b : Band α) : Prop := a.bottom = b.top ∧ a.items = b.items

instance : DecidableRel (Band.Joins (α := α)) := fun a b =>
  inferInstanceAs (Decidable (a.bottom = b.top ∧ a.items = b.items))

def coalesceFrom (a : Band α) : List (Band α) → List (Band α)
  | [] => [a]
  | b :: bs =>
    if a.Joins b then coalesceFrom ⟨a.top, b.bottom, a.items⟩ bs else a :: coalesceFrom b bs

/-- Bands that join are one band. -/
def coalesce : List (Band α) → List (Band α)
  | [] => []
  | a :: bs => coalesceFrom a bs

theorem points_coalesceFrom (h : Banded (b :: bs)) :
    points (coalesceFrom b bs) = points (b :: bs) := by
  induction bs generalizing b with
  | nil => rfl
  | cons next bs ih =>
    obtain ⟨hb, hfirst, hrest⟩ := banded_cons.mp h
    obtain ⟨hnext, hbelow, hbs⟩ := banded_cons.mp hrest
    rw [coalesceFrom]
    by_cases hjoin : b.Joins next
    · obtain ⟨htouch, hitems⟩ := hjoin
      have hhigh := hb.high
      have hnhigh := hnext.high
      have hwhole : Banded (⟨b.top, next.bottom, b.items⟩ :: bs) :=
        banded_cons.mpr ⟨⟨hhigh.trans (htouch ▸ hnhigh), hb.nonempty, hb.apart⟩, hbelow, hbs⟩
      rw [if_pos ⟨htouch, hitems⟩, ih hwhole]
      ext p
      simp only [mem_points_cons, mem_band, ← hitems]
      grind
    · rw [if_neg hjoin]
      ext p
      rw [mem_points_cons, ih hrest, mem_points_cons (b := b)]

/-- Coalescing starts with a band that starts as the first, and leaves nothing to coalesce. -/
theorem coalesceFrom_spec (h : Banded (b :: bs)) :
    ∃ c cs, coalesceFrom b bs = c :: cs ∧ c.top = b.top ∧ c.items = b.items ∧ Banded (c :: cs) ∧
      (c :: cs).IsChain fun a b => ¬ a.Joins b := by
  induction bs generalizing b with
  | nil => exact ⟨b, [], rfl, rfl, rfl, h, .singleton b⟩
  | cons next bs ih =>
    obtain ⟨hb, hfirst, hrest⟩ := banded_cons.mp h
    obtain ⟨hnext, hbelow, hbs⟩ := banded_cons.mp hrest
    rw [coalesceFrom]
    by_cases hjoin : b.Joins next
    · obtain ⟨htouch, hitems⟩ := hjoin
      have hwhole : Banded (⟨b.top, next.bottom, b.items⟩ :: bs) :=
        banded_cons.mpr ⟨⟨hb.high.trans (htouch ▸ hnext.high), hb.nonempty, hb.apart⟩, hbelow, hbs⟩
      rw [if_pos ⟨htouch, hitems⟩]
      exact ih hwhole
    · obtain ⟨c, cs, heq, htop, hsame, hbanded, hchain⟩ := ih hrest
      rw [if_neg hjoin, heq]
      have hover : b.bottom ≤ c.top := htop ▸ hfirst next List.mem_cons_self
      refine ⟨b, c :: cs, rfl, rfl, rfl, banded_cons.mpr ⟨hb, ?_, hbanded⟩, ?_⟩
      · have hspans := hbanded.spans
        exact fun d hd => hover.trans (hspans.within d hd).1
      · refine hchain.cons_cons fun hj => hjoin ⟨?_, ?_⟩
        · exact hj.1.trans htop
        · exact hj.2.trans hsame

theorem points_coalesce (h : Banded bs) : points (coalesce bs) = points bs := by
  cases bs with
  | nil => rfl
  | cons b bs => exact points_coalesceFrom h

theorem Banded.coalesce (h : Banded bs) : Banded (coalesce bs) := by
  cases bs with
  | nil => exact h
  | cons b bs =>
    obtain ⟨c, cs, heq, -, -, hbanded, -⟩ := coalesceFrom_spec h
    rw [Bands.coalesce, heq]
    exact hbanded

theorem coalesced_coalesce (h : Banded bs) : (coalesce bs).IsChain fun a b => ¬ a.Joins b := by
  cases bs with
  | nil => exact .nil
  | cons b bs =>
    obtain ⟨c, cs, heq, -, -, -, hchain⟩ := coalesceFrom_spec h
    rw [Bands.coalesce, heq]
    exact hchain

/-! ## Clipping -/

/-- What a band shares with a rectangle. -/
def Band.clip (r : Rect α) (b : Band α) : List (Band α) :=
  if max b.top r.top < min b.bottom r.bottom ∧ Bands.clip r.left r.right b.items ≠ [] then
    [⟨max b.top r.top, min b.bottom r.bottom, Bands.clip r.left r.right b.items⟩]
  else []

/-- What lies in a rectangle. -/
def clipAll (r : Rect α) (bs : List (Band α)) : List (Band α) := bs.flatMap (Band.clip r)

theorem mem_points_clip : p ∈ points (b.clip r) ↔ p ∈ b.points ∧ p ∈ r.points := by
  have hitems := covers_clip r.left r.right p.1 b.items
  have hnil : Bands.clip r.left r.right b.items = [] → ¬ (Covers b.items p.1 ∧ r.left ≤ p.1 ∧
      p.1 < r.right) := fun h hc => covers_nil (h ▸ hitems.mpr hc)
  unfold Band.clip
  split
  · simp only [mem_points_cons, mem_points_nil, mem_band, mem_rect, hitems]
    grind
  · simp only [mem_points_nil, mem_band, mem_rect]
    grind

/-- **Clipping intersects.** -/
theorem points_clipAll (r : Rect α) (bs : List (Band α)) :
    points (clipAll r bs) = points bs ∩ r.points := by
  induction bs with
  | nil =>
    ext p
    simp [clipAll]
  | cons b bs ih =>
    ext p
    have hrest : p ∈ points (clipAll r bs) ↔ p ∈ points bs ∧ p ∈ r.points := ih ▸ Iff.rfl
    have hall : clipAll r (b :: bs) = b.clip r ++ clipAll r bs := List.flatMap_cons
    rw [hall, mem_points_append, mem_points_clip, hrest, Set.mem_inter_iff, mem_points_cons]
    tauto

theorem Spans.clip (hb : b.Proper) : Spans b.top b.bottom (b.clip r) := by
  unfold Band.clip
  split
  · next hcond =>
    exact .singleton ⟨hcond.1, hcond.2, hb.apart.clip⟩ (le_max_left _ _) (min_le_left _ _)
  · exact .nil

theorem Banded.clipAll (h : Banded bs) : Banded (clipAll r bs) := by
  constructor
  · intro c hc
    obtain ⟨b, hb, hclip⟩ := List.mem_flatMap.mp hc
    exact (Spans.clip (h.proper b hb)).banded.proper c hclip
  · refine List.pairwise_flatMap.mpr ⟨fun b hb => (Spans.clip (h.proper b hb)).banded.ordered, ?_⟩
    refine h.ordered.imp_of_mem ?_
    intro a b ha hb hab c hc d hd
    have hupper := ((Spans.clip (r := r) (h.proper a ha)).within c hc).2
    have hlower := ((Spans.clip (r := r) (h.proper b hb)).within d hd).1
    exact hupper.trans (hab.trans hlower)

/-! ## How many rectangles -/

omit [LinearOrder α] in
theorem Band.rects_length (b : Band α) : b.rects.length = b.items.length := List.length_map _

omit [LinearOrder α] in
theorem rects_ite_length (c : Prop) [Decidable c] (b : Band α) :
    ((if c then [b] else []).flatMap Band.rects).length = if c then b.items.length else 0 := by
  split <;> simp [Band.rects_length]

/-- A band is cut into three at most, and grows by one interval, or by a piece below it. -/
theorem unite_length_le (r : Rect α) (bs : List (Band α)) (hb : b.Proper) :
    ((b.unite r ++ gap r b bs).flatMap Band.rects).length ≤ 4 * b.items.length := by
  have hpos := List.length_pos_of_ne_nil hb.nonempty
  have hmerge := merge_length_le r.left r.right b.items
  have hgap : ((gap r b bs).flatMap Band.rects).length ≤ if b.bottom < r.bottom then 1 else 0 := by
    cases bs with
    | nil => exact Nat.zero_le _
    | cons next bs =>
      rw [gap]
      split
      · next hcond => simp [hcond.2.1, Band.rects]
      · exact Nat.zero_le _
  rw [List.flatMap_append, List.length_append]
  unfold Band.unite
  by_cases hpass : b.Passes r
  · rw [if_pos hpass]
    simp only [List.flatMap_cons, List.flatMap_nil, List.append_nil, Band.rects_length]
    split at hgap <;> omega
  · rw [if_neg hpass]
    rw [List.flatMap_append, List.flatMap_cons, List.length_append, List.length_append,
      Band.rects_length, rects_ite_length, rects_ite_length]
    dsimp only
    by_cases hlt : r.bottom < b.bottom
    · rw [if_neg (not_lt.mpr hlt.le)] at hgap
      rw [if_pos hlt]
      split <;> omega
    · rw [if_neg hlt]
      split at hgap <;> split <;> omega

theorem uniteAll_length_le (r : Rect α) (h : ∀ b ∈ bs, b.Proper) :
    ((uniteAll r bs).flatMap Band.rects).length ≤ 4 * (bs.flatMap Band.rects).length := by
  induction bs with
  | nil => exact Nat.zero_le _
  | cons b bs ih =>
    have hfirst := unite_length_le r bs (h b List.mem_cons_self)
    have hrest := ih fun c hc => h c (List.mem_cons_of_mem b hc)
    rw [uniteAll, List.flatMap_append, List.length_append, List.flatMap_cons, List.length_append,
      Band.rects_length]
    omega

/-- **Four for each there was, and two**: above and below. -/
theorem uniteRect_length_le (r box : Rect α) (h : ∀ b ∈ bs, b.Proper) :
    ((uniteRect r box bs).flatMap Band.rects).length ≤ 4 * (bs.flatMap Band.rects).length + 2 := by
  have hall := uniteAll_length_le r h
  rw [uniteRect, List.flatMap_append, List.flatMap_append, List.length_append, List.length_append,
    rects_ite_length, rects_ite_length]
  simp only [List.length_singleton]
  split <;> split <;> omega

end Points

end TiraRdp.Lib.Bands
