import Outbound.Lib.Delivery

/-! Streams that arrive in chunks with faults in between: what one read gets, and what a reader
that is interrupted owes its caller. -/
namespace Outbound.Lib

open List Option

variable {α ε σ : Type*}

/-- What one read of unlimited room gets: data, an error, or both. -/
structure Arrival (α ε : Type*) where
  data : List α
  err : Option ε
deriving DecidableEq

/-- One step of the stream itself, whatever the reads. -/
inductive Signal (α ε : Type*) where
  | item (a : α)
  | fault (e : ε)
deriving DecidableEq

/-- The elements of a stream without its faults. -/
def items : List (Signal α ε) → List α
  | [] => []
  | .item a :: s => a :: items s
  | .fault _ :: s => items s

@[simp] theorem items_nil : items ([] : List (Signal α ε)) = [] := rfl

@[simp] theorem items_item (a : α) (s : List (Signal α ε)) : items (.item a :: s) = a :: items s := rfl

@[simp] theorem items_fault (e : ε) (s : List (Signal α ε)) : items (.fault e :: s) = items s := rfl

@[simp] theorem items_append (s t : List (Signal α ε)) : items (s ++ t) = items s ++ items t := by
  induction s with
  | nil => rfl
  | cons x s ih => cases x <;> simp [ih]

@[simp] theorem items_map (l : List α) : items (l.map (Signal.item : α → Signal α ε)) = l := by
  induction l with
  | nil => rfl
  | cons a l ih => rw [map_cons, items_item, ih]

/-- How many elements come before each fault of a stream, from a given number on. -/
def faultsAfter : ℕ → List (Signal α ε) → List ℕ
  | _, [] => []
  | k, .item _ :: s => faultsAfter (k + 1) s
  | k, .fault _ :: s => k :: faultsAfter k s

theorem le_of_mem_faultsAfter {s : List (Signal α ε)} {n k : ℕ} (h : k ∈ faultsAfter n s) :
    n ≤ k := by
  induction s generalizing n with
  | nil => exact absurd h not_mem_nil
  | cons x s ih =>
    cases x with
    | item a => exact Nat.le_of_succ_le (ih h)
    | fault e =>
      rcases mem_cons.mp h with rfl | h
      · exact Nat.le_refl k
      · exact ih h

@[simp] theorem faultsAfter_append (n : ℕ) (d : List α) (s : List (Signal α ε)) :
    faultsAfter n (d.map .item ++ s) = faultsAfter (n + d.length) s := by
  induction d generalizing n with
  | nil => rfl
  | cons a d ih =>
    rw [map_cons, cons_append, faultsAfter, ih, length_cons]
    congr 1
    omega

def faultOf (err : Option ε) : List (Signal α ε) := err.toList.map .fault

@[simp] theorem faultOf_none : faultOf (none : Option ε) = ([] : List (Signal α ε)) := rfl

@[simp] theorem faultOf_some (e : ε) : faultOf (some e) = ([.fault e] : List (Signal α ε)) := rfl

@[simp] theorem items_faultOf (err : Option ε) : items (faultOf err : List (Signal α ε)) = [] := by
  cases err <;> rfl

def Arrival.signals (x : Arrival α ε) : List (Signal α ε) := x.data.map .item ++ faultOf x.err

abbrev Feed (α ε : Type*) := List (Arrival α ε)

namespace Feed

def signals (f : Feed α ε) : List (Signal α ε) := f.flatMap Arrival.signals

@[simp] theorem signals_nil : signals ([] : Feed α ε) = [] := rfl

@[simp] theorem signals_cons (x : Arrival α ε) (f : Feed α ε) :
    signals (x :: f) = x.data.map .item ++ (faultOf x.err ++ signals f) := by
  simp [signals, Arrival.signals]

theorem signals_cut (x : Arrival α ε) (f : Feed α ε) (l : ℕ) : signals (x :: f) =
    (x.data.take l).map .item ++ signals (⟨x.data.drop l, x.err⟩ :: f) := by
  rw [signals_cons, signals_cons, ← append_assoc (map _ (x.data.take l)), ← map_append,
    take_append_drop]

/-- No read of the stream comes back without data and without an error. -/
def Proper (f : Feed α ε) : Prop := ∀ x ∈ f, x.data ≠ [] ∨ x.err ≠ none

variable (l : List α) {f : Feed α ε} {x : Arrival α ε}

theorem Proper.tail (h : Proper (x :: f)) : Proper f :=
  fun y hy => h y (mem_cons_of_mem x hy)

def single : Feed α ε := l.map fun a => ⟨[a], none⟩

@[simp] theorem signals_single : signals (single l : Feed α ε) = l.map .item := by
  induction l with
  | nil => rfl
  | cons a l ih =>
    rw [single, map_cons, signals_cons, ← single, ih]
    rfl

theorem proper_single : Proper (single l : Feed α ε) := by
  exact forall_mem_map.mpr fun a _ => .inl (cons_ne_nil a [])

/-- One read with room for `l` elements. What does not fit of an arrival is left, with its error;
after the last arrival every read reports `eof`. -/
def read (eof : ε) (f : Feed α ε) (l : ℕ) : Arrival α ε × Feed α ε :=
  match f with
  | [] => (⟨[], some eof⟩, [])
  | x :: f =>
    if x.data.length ≤ l then (x, f)
    else (⟨x.data.take l, none⟩, ⟨x.data.drop l, x.err⟩ :: f)

theorem length_read_le (eof : ε) (f : Feed α ε) (l : ℕ) : (read eof f l).1.data.length ≤ l := by
  unfold read
  cases f with
  | nil => exact Nat.zero_le l
  | cons x f =>
    dsimp only
    split_ifs with hfits
    · exact hfits
    · exact length_take_le l x.data

/-- A read takes its signals off the front of the stream, at least one if there is any room. -/
theorem read_spec (eof : ε) {l : ℕ} (hl : 0 < l) (hf : Proper f) (hne : f ≠ []) :
    signals f = (read eof f l).1.signals ++ signals (read eof f l).2 ∧ Proper (read eof f l).2 ∧
      ((read eof f l).1.data ≠ [] ∨ (read eof f l).1.err ≠ none) ∧
      (read eof f l).1.data.length ≤ l := by
  cases f with
  | nil => exact absurd rfl hne
  | cons x f =>
    unfold read
    dsimp only
    split_ifs with hfits
    · exact ⟨rfl, hf.tail, hf x mem_cons_self, hfits⟩
    · refine ⟨?_, ?_, .inl ?_, length_take_le l x.data⟩
      · rw [Arrival.signals, faultOf_none, append_nil]
        exact signals_cut x f l
      · exact forall_mem_cons.mpr ⟨.inl (mt drop_eq_nil_iff.mp hfits), hf.tail⟩
      · apply ne_nil_of_length_pos
        rw [length_take]
        omega

def rest (f : Feed α ε) : List α := items f.signals

@[simp] theorem rest_nil : rest ([] : Feed α ε) = [] := rfl

@[simp] theorem rest_cons (x : Arrival α ε) (f : Feed α ε) : rest (x :: f) = x.data ++ rest f := by
  simp [rest]

/-- A read takes its data off the front of what is left, whatever comes with it. -/
theorem rest_read (eof : ε) (f : Feed α ε) (l : ℕ) :
    rest f = (read eof f l).1.data ++ rest (read eof f l).2 := by
  cases f with
  | nil => rfl
  | cons x f =>
    unfold read
    dsimp only
    split_ifs
    · exact rest_cons x f
    · rw [rest_cons, rest_cons, ← append_assoc, take_append_drop]

/-- `io.ReadAtLeast` into a buffer of `room` elements: reads until at least `k` of them are there or
an error comes. An error that comes with enough data is not reported. -/
def readAtLeast (eof : ε) : Feed α ε → ℕ → ℕ → List α × Option ε × Feed α ε
  | f, _, 0 => ([], none, f)
  | [], _, _ + 1 => ([], some eof, [])
  | x :: f, room, k + 1 =>
    if x.data.length ≤ room then
      if k + 1 ≤ x.data.length then (x.data, none, f)
      else
        match x.err with
        | some e => (x.data, some e, f)
        | none =>
          let r := readAtLeast eof f (room - x.data.length) (k + 1 - x.data.length)
          (x.data ++ r.1, r.2)
    else (x.data.take room, none, ⟨x.data.drop room, x.err⟩ :: f)

/-- What `readAtLeast` gets is the front of what is left, it fits the buffer, and it is enough
exactly when no error is reported. -/
theorem readAtLeast_spec (eof : ε) (f : Feed α ε) {room k : ℕ} (hk : k ≤ room) :
    rest f = (readAtLeast eof f room k).1 ++ rest (readAtLeast eof f room k).2.2 ∧
      (readAtLeast eof f room k).1.length ≤ room ∧
      ((readAtLeast eof f room k).2.1 = none ↔ k ≤ (readAtLeast eof f room k).1.length) := by
  induction f generalizing room k with
  | nil =>
    cases k with
    | zero => exact ⟨rfl, Nat.zero_le room, iff_of_true rfl (Nat.le_refl 0)⟩
    | succ k =>
      exact ⟨rfl, Nat.zero_le room, iff_of_false (some_ne_none eof) (Nat.not_succ_le_zero k)⟩
  | cons x f ih =>
    cases k with
    | zero => exact ⟨rfl, Nat.zero_le room, iff_of_true rfl (Nat.le_refl 0)⟩
    | succ k =>
      unfold readAtLeast
      split_ifs with hfits henough
      · exact ⟨rest_cons x f, hfits, iff_of_true rfl henough⟩
      · cases herr : x.err with
        | some e =>
          exact ⟨rest_cons x f, hfits, iff_of_false (some_ne_none e) henough⟩
        | none =>
          have hroom : k + 1 - x.data.length ≤ room - x.data.length := by omega
          obtain ⟨hrest, hlen, hok⟩ := ih hroom
          refine ⟨?_, ?_, hok.trans ?_⟩
          · simp [rest_cons, hrest]
          · rw [length_append]
            omega
          · rw [length_append]
            omega
      · refine ⟨?_, length_take_le room x.data, iff_of_true rfl ?_⟩
        · rw [rest_cons, rest_cons, ← append_assoc, take_append_drop]
        · rw [length_take]
          omega

def Clean (f : Feed α ε) : Prop := ∀ x ∈ f, x.data ≠ [] ∧ x.err = none

theorem Clean.tail (h : Clean (x :: f)) : Clean f :=
  fun y hy => h y (mem_cons_of_mem x hy)

theorem Clean.cut {l : ℕ} (h : Clean (x :: f))
    (hl : ¬ x.data.length ≤ l) : Clean (⟨x.data.drop l, x.err⟩ :: f) := by
  exact forall_mem_cons.mpr ⟨⟨mt drop_eq_nil_iff.mp hl, (h x mem_cons_self).2⟩, h.tail⟩

theorem Clean.read_spec (eof : ε) (h : Clean f) (l : ℕ) :
    Clean (read eof f l).2 ∧ rest f = (read eof f l).1.data ++ rest (read eof f l).2 ∧
      (read eof f l).1.data.length ≤ l ∧
      (rest f ≠ [] → (read eof f l).1.err = none ∧ (0 < l → (read eof f l).1.data ≠ [])) := by
  cases f with
  | nil => exact ⟨h, rfl, Nat.zero_le l, fun hne => absurd rfl hne⟩
  | cons x f =>
    have hx := h x mem_cons_self
    unfold read
    dsimp only
    split_ifs with hfits
    · exact ⟨h.tail, rest_cons x f, hfits, fun _ => ⟨hx.2, fun _ => hx.1⟩⟩
    · refine ⟨h.cut hfits, ?_, length_take_le l x.data, fun _ => ⟨rfl, fun hl => ?_⟩⟩
      · rw [rest_cons, rest_cons, ← append_assoc, take_append_drop]
      · apply ne_nil_of_length_pos
        rw [length_take]
        omega

/-- Every fault comes on its own, between reads that get data. -/
def Separate (f : Feed α ε) : Prop := ∀ x ∈ f, x.data ≠ [] ∧ x.err = none ∨ x.data = [] ∧ x.err ≠ none

/-- What is taken off a stream before a read, or several of them, end: the data, and a fault or the
end of the stream where one comes. -/
inductive TakesOff (eof : ε) : List (Signal α ε) → List α → Option ε → List (Signal α ε) → Prop
  | data (d : List α) (s : List (Signal α ε)) : TakesOff eof (d.map .item ++ s) d none s
  | fault (d : List α) (e : ε) (s : List (Signal α ε)) :
    TakesOff eof (d.map .item ++ .fault e :: s) d (some e) s
  | eof (d : List α) : TakesOff eof (d.map .item) d (some eof) []

variable {d : List α} {err : Option ε} {eof : ε} {s s' : List (Signal α ε)}

theorem TakesOff.append (front : List α) (h : TakesOff eof s d err s') :
    TakesOff eof (front.map .item ++ s) (front ++ d) err s' := by
  cases h with
  | data =>
    have hdata : TakesOff eof _ (front ++ d) none s' := .data _ s'
    rwa [map_append, append_assoc] at hdata
  | fault _ e =>
    have hfault : TakesOff eof _ (front ++ d) (some e) s' := .fault _ e s'
    rwa [map_append, append_assoc] at hfault
  | eof =>
    have heof : TakesOff eof _ (front ++ d) (some eof) [] := .eof _
    rwa [map_append] at heof

theorem TakesOff.of_none (h : TakesOff eof s d none s') : s = d.map .item ++ s' := by
  cases h
  rfl

section

variable (h : TakesOff eof s d err s')

include h

theorem TakesOff.items_eq : items s = d ++ items s' := by
  cases h <;> simp

theorem TakesOff.length_le : d.length + s'.length ≤ s.length := by
  cases h <;> simp

theorem TakesOff.length_lt (hsome : d ≠ [] ∨ err ≠ none) : s'.length < s.length ∨ s = [] := by
  cases h with
  | data =>
    have := length_pos_of_ne_nil (hsome.resolve_right fun hne => hne rfl)
    simp
    omega
  | fault => simp; omega
  | eof => cases d <;> simp

end

variable {f : Feed α ε} {x : Arrival α ε}

theorem Separate.tail (h : Separate (x :: f)) : Separate f :=
  fun y hy => h y (mem_cons_of_mem x hy)

theorem Separate.head (h : Separate (x :: f)) (eof : ε) :
    TakesOff eof (signals (x :: f)) x.data x.err (signals f) ∧
      (x.data ≠ [] ∧ x.err = none ∨ x.data = [] ∧ x.err ≠ none) := by
  have hx := h x mem_cons_self
  refine ⟨?_, hx⟩
  rw [signals_cons]
  cases x.err with
  | none => exact .data x.data (signals f)
  | some e => exact .fault x.data e (signals f)

theorem Separate.eq_nil (h : Separate f) (hnil : signals f = []) : f = [] := by
  cases f with
  | nil => rfl
  | cons x f =>
    rw [signals_cons, append_eq_nil_iff, map_eq_nil_iff, append_eq_nil_iff] at hnil
    rcases h x mem_cons_self with ⟨hdata, -⟩ | ⟨-, herr⟩
    · exact absurd hnil.1 hdata
    · obtain ⟨e, he⟩ := ne_none_iff_exists'.mp herr
      rw [he] at hnil
      cases hnil.2.1

theorem Separate.cut (h : Separate (x :: f)) {l : ℕ} (hl : ¬ x.data.length ≤ l) (eof : ε) :
    TakesOff eof (signals (x :: f)) (x.data.take l) none (signals (⟨x.data.drop l, x.err⟩ :: f)) ∧
      Separate (⟨x.data.drop l, x.err⟩ :: f) := by
  have hdrop : x.data.drop l ≠ [] := mt drop_eq_nil_iff.mp hl
  constructor
  · rw [signals_cut x f l]
    exact .data _ _
  · refine forall_mem_cons.mpr ⟨.inl ⟨hdrop, ?_⟩, h.tail⟩
    rcases h x mem_cons_self with ⟨-, herr⟩ | ⟨hnil, -⟩
    · exact herr
    · exact absurd (by rw [hnil, drop_nil]) hdrop

theorem Separate.read (eof : ε) (h : Separate f) (l : ℕ) :
    TakesOff eof (signals f) (read eof f l).1.data (read eof f l).1.err (signals (read eof f l).2) ∧
      Separate (read eof f l).2 ∧ ((read eof f l).1.err ≠ none → (read eof f l).1.data = []) ∧
      (0 < l → (read eof f l).1.data ≠ [] ∨ (read eof f l).1.err ≠ none) := by
  cases f with
  | nil => exact ⟨.eof [], h, fun _ => rfl, fun _ => .inr (some_ne_none eof)⟩
  | cons x f =>
    unfold Feed.read
    dsimp only
    split_ifs with hfits
    · obtain ⟨htakes, hx⟩ := h.head eof
      refine ⟨htakes, h.tail, fun herr => ?_, fun _ => hx.imp And.left And.right⟩
      exact (hx.resolve_left fun hdata => herr hdata.2).1
    · obtain ⟨htakes, hcut⟩ := h.cut hfits eof
      refine ⟨htakes, hcut, fun herr => absurd rfl herr, fun hl => .inl ?_⟩
      apply ne_nil_of_length_pos
      rw [length_take]
      omega

/-- `io.ReadFull`: reads until `k` elements are there or an error comes. An error that comes with the
last of them is not reported. -/
def readFull (eof : ε) : Feed α ε → ℕ → List α × Option ε × Feed α ε
  | f, 0 => ([], none, f)
  | [], _ + 1 => ([], some eof, [])
  | x :: f, k + 1 =>
    if x.data.length ≤ k + 1 then
      if x.data.length = k + 1 then (x.data, none, f)
      else
        match x.err with
        | some e => (x.data, some e, f)
        | none =>
          let r := readFull eof f (k + 1 - x.data.length)
          (x.data ++ r.1, r.2)
    else (x.data.take (k + 1), none, ⟨x.data.drop (k + 1), x.err⟩ :: f)

theorem Clean.readFull_take (eof : ε) (h : Clean f) {k : ℕ} (hk : k ≤ (rest f).length) :
    ∃ f', readFull eof f k = ((rest f).take k, none, f') ∧ Clean f' ∧
      rest f' = (rest f).drop k := by
  induction f generalizing k with
  | nil =>
    obtain rfl : k = 0 := Nat.le_zero.mp hk
    exact ⟨[], rfl, h, rfl⟩
  | cons x f ih =>
    cases k with
    | zero => exact ⟨x :: f, rfl, h, rfl⟩
    | succ k =>
      rw [rest_cons, length_append] at hk
      rw [readFull, rest_cons, take_append, drop_append]
      split_ifs with hfits hfull
      · rw [← hfull, take_length, Nat.sub_self, drop_length]
        exact ⟨f, by simp, h.tail, rfl⟩
      · obtain ⟨f', hread, hclean, hrest⟩ := ih h.tail (k := k + 1 - x.data.length) (by omega)
        rw [(h x mem_cons_self).2, take_of_length_le hfits, drop_of_length_le hfits]
        rw [hread]
        exact ⟨f', rfl, hclean, hrest⟩
      · rw [Nat.sub_eq_zero_of_le (by omega)]
        refine ⟨_, ?_, h.cut hfits, ?_⟩
        · simp
        · simp

theorem Clean.readFull_append (eof : ε) (h : Clean f) {a b : List α} {k : ℕ}
    (hk : a.length = k) (hf : rest f = a ++ b) :
    ∃ f', readFull eof f k = (a, none, f') ∧ Clean f' ∧ rest f' = b := by
  obtain ⟨f', hread, hclean, hrest⟩ := h.readFull_take eof (k := k)
    (by rw [hf, length_append]; omega)
  rw [hf, take_left' hk] at hread
  rw [hf, drop_left' hk] at hrest
  exact ⟨f', hread, hclean, hrest⟩

theorem Clean.eq_nil (h : Clean f) (hrest : rest f = []) : f = [] := by
  cases f with
  | nil => rfl
  | cons x f =>
    rw [rest_cons] at hrest
    exact absurd (append_eq_nil_iff.mp hrest).1 (h x mem_cons_self).1

end Feed

def readsM (read : σ → ℕ → Option (ReadOut α ε × σ)) : σ → List ℕ → Option (List (ReadOut α ε))
  | _, [] => some []
  | s, l :: ls => (read s l).bind fun r => (readsM read r.2 ls).map (r.1 :: ·)

/-- A reader that keeps track of what is left, and of how many reads it may still take to get it,
returns what is left. -/
theorem readsM_exhaust (read : σ → ℕ → Option (ReadOut α ε × σ)) (Leaves : σ → ℕ → List α → Prop)
    (hstep : ∀ s n q l, Leaves s n q → ∃ out s' n' q', read s l = some (out, s') ∧
      Leaves s' n' q' ∧ q = out.data ++ q' ∧ (0 < l → n' < n ∨ q = []))
    (s : σ) (n : ℕ) (q : List α) (h : Leaves s n q) (ls : List ℕ) :
    ∃ outs, readsM read s ls = some outs ∧ received outs <+: q ∧
      ((∀ l ∈ ls, 0 < l) → n < ls.length → received outs = q) := by
  induction ls generalizing s n q with
  | nil => exact ⟨[], rfl, List.nil_prefix, fun _ hn => absurd hn (Nat.not_lt_zero n)⟩
  | cons l ls ih =>
    obtain ⟨out, s', n', q', hread, hleaves, hsplit, hless⟩ := hstep s n q l h
    obtain ⟨outs, houts, hfront, hall⟩ := ih s' n' q' hleaves
    refine ⟨out :: outs, ?_, ?_, fun hpos hn => ?_⟩
    · simp [readsM, hread, houts]
    · rw [received_cons, hsplit]
      exact (prefix_append_right_inj _).mpr hfront
    · rw [received_cons, hsplit]
      congr 1
      rcases hless (hpos l mem_cons_self) with hlt | hnil
      · apply hall (fun l' hl' => hpos l' (mem_cons_of_mem l hl'))
        rw [length_cons] at hn
        omega
      · rw [hnil] at hsplit
        obtain ⟨-, rfl⟩ := append_eq_nil_iff.mp hsplit.symm
        exact prefix_nil.mp hfront

/-- The reads from `s` on return the given elements: always a front of them, and all of them with
more than `n` reads. -/
def ReturnsIn (read : σ → ℕ → Option (ReadOut α ε × σ)) (n : ℕ) (s : σ) (q : List α) : Prop :=
  ∀ ls : List ℕ, ∃ outs, readsM read s ls = some outs ∧ received outs <+: q ∧
    ((∀ l ∈ ls, 0 < l) → n < ls.length → received outs = q)

def Returns (read : σ → ℕ → Option (ReadOut α ε × σ)) (s : σ) (q : List α) : Prop :=
  ∃ n, ReturnsIn read n s q

section Returns

variable {read : σ → ℕ → Option (ReadOut α ε × σ)} {n : ℕ} {s s' : σ} {p q : List α}

theorem ReturnsIn.step
    (h : ∀ l, ∃ out s' q', read s l = some (out, s') ∧ q = out.data ++ q' ∧ ReturnsIn read n s' q') :
    ReturnsIn read (n + 1) s q := by
  intro ls
  cases ls with
  | nil => exact ⟨[], rfl, List.nil_prefix, fun _ hn => absurd hn (Nat.not_lt_zero _)⟩
  | cons l ls =>
    obtain ⟨out, s', q', hread, rfl, hrest⟩ := h l
    obtain ⟨outs, houts, hfront, hall⟩ := hrest ls
    refine ⟨out :: outs, by simp [readsM, hread, houts], ?_, fun hpos hn => ?_⟩
    · exact (prefix_append_right_inj _).mpr hfront
    · rw [received_cons, hall (fun l' hl' => hpos l' (mem_cons_of_mem l hl'))]
      rw [length_cons] at hn
      omega

theorem Returns.unique (hp : Returns read s p) (hq : Returns read s q) : p = q := by
  obtain ⟨m, hp⟩ := hp
  obtain ⟨n, hq⟩ := hq
  -- enough reads of one element get both
  obtain ⟨outs, houts, -, hall⟩ := hp (replicate (m + n + 1) 1)
  obtain ⟨outs', houts', -, hall'⟩ := hq (replicate (m + n + 1) 1)
  have hpos : ∀ l ∈ replicate (m + n + 1) 1, 0 < l := by
    intro l hl
    rw [eq_of_mem_replicate hl]
    exact Nat.one_pos
  obtain rfl := some.inj (houts.symm.trans houts')
  rw [length_replicate] at hall hall'
  rw [← hall hpos (by omega), hall' hpos (by omega)]

theorem Returns.of_idle (h : ∀ l, ∃ err, read s l = some (⟨[], err⟩, s')) (hq : Returns read s' q) :
    Returns read s q := by
  obtain ⟨n, hq⟩ := hq
  refine ⟨n + 1, .step fun l => ?_⟩
  obtain ⟨err, hread⟩ := h l
  exact ⟨_, s', q, hread, rfl, hq⟩

end Returns

end Outbound.Lib
