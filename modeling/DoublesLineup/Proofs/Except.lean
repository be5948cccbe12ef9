import Mathlib.Data.List.Forall2
import DoublesLineup.Fault
/-! # Computations that may fault

The optimiser's operations run in `Except Fault`: a broken precondition stops them with a
fault. The lemmas here take apart `bind`, `mapM` and `foldlM` in that monad. A traversal
succeeds exactly when each of its steps does, each result the step's own; a fold succeeds
with an invariant at the end when every step that starts from the invariant succeeds and keeps
it.
-/

namespace DoublesLineup

section

variable {ε α β : Type}

@[simp] theorem bind_eq_ok {x : Except ε α} {f : α → Except ε β} {b : β} :
    x >>= f = .ok b ↔ ∃ a, x = .ok a ∧ f a = .ok b := by
  cases x <;> simp [bind, Except.bind]

@[simp] theorem pure_eq_ok {a b : α} : (pure a : Except ε α) = .ok b ↔ a = b := by
  simp [pure, Except.pure]

theorem throw_ne_ok {e : ε} {a : α} : (throw e : Except ε α) ≠ .ok a := nofun

theorem bind_eq_error {x : Except ε α} {f : α → Except ε β} {e : ε} :
    x >>= f = .error e ↔ x = .error e ∨ ∃ a, x = .ok a ∧ f a = .error e := by
  cases x <;> simp [bind, Except.bind]

theorem bind_error_of_error {x : Except ε α} {f : α → Except ε β} (h : ∃ e, x = .error e) :
    ∃ e, x >>= f = .error e := by
  obtain ⟨e, rfl⟩ := h
  exact ⟨e, rfl⟩

theorem ok_bind {a : α} {f : α → Except ε β} : (Except.ok a : Except ε α) >>= f = f a :=
  rfl

@[simp] theorem map_eq_ok {f : α → β} {x : Except ε α} {b : β} :
    f <$> x = .ok b ↔ ∃ a, x = .ok a ∧ f a = b := by
  cases x <;> simp [Functor.map, Except.map]

theorem mapM_eq_ok {f : α → Except ε β} :
    ∀ {xs : List α} {ys : List β},
      xs.mapM f = .ok ys ↔ List.Forall₂ (fun x y => f x = .ok y) xs ys
  | [], ys => by cases ys <;> simp
  | x :: xs, ys => by
    rw [List.mapM_cons]
    cases ys with
    | nil => simp
    | cons y ys =>
      simp only [bind_eq_ok, pure_eq_ok, List.cons.injEq, List.forall₂_cons]
      constructor
      · rintro ⟨a, hx, zs, hzs, rfl, rfl⟩
        exact ⟨hx, mapM_eq_ok.mp hzs⟩
      · rintro ⟨hx, hzs⟩
        exact ⟨y, hx, ys, mapM_eq_ok.mpr hzs, rfl, rfl⟩

theorem mapM_eq_ok_map {f : α → Except ε β} {g : α → β} {xs : List α}
    (h : ∀ x ∈ xs, f x = .ok (g x)) : xs.mapM f = .ok (xs.map g) := by
  rw [mapM_eq_ok, List.forall₂_map_right_iff]
  exact List.forall₂_same.mpr h

theorem mapM_ok_of_forall {f : α → Except ε β} :
    ∀ {xs : List α}, (∀ x ∈ xs, ∃ y, f x = .ok y) → ∃ ys, xs.mapM f = .ok ys
  | [], _ => ⟨[], rfl⟩
  | x :: xs, h => by
    obtain ⟨y, hy⟩ := h x List.mem_cons_self
    obtain ⟨ys, hys⟩ := mapM_ok_of_forall fun z hz => h z (List.mem_cons_of_mem x hz)
    exact ⟨y :: ys, by simp [hy, hys]⟩

theorem forall₂_getElem? {R : α → β → Prop} :
    ∀ {xs : List α} {ys : List β}, List.Forall₂ R xs ys →
      ∀ {i : Nat} {x : α} {y : β}, xs[i]? = some x → ys[i]? = some y → R x y
  | _, _, .nil, _, _, _, hx, _ => by simp at hx
  | _, _, .cons hab _, 0, _, _, hx, hy => by
    simp only [List.getElem?_cons_zero, Option.some.injEq] at hx hy
    subst hx hy
    exact hab
  | _, _, .cons _ h, i + 1, _, _, hx, hy => by
    simp only [List.getElem?_cons_succ] at hx hy
    exact forall₂_getElem? h hx hy

theorem mapM_eq_ok_getElem? {f : α → Except ε β} {xs : List α} {ys : List β}
    (h : xs.mapM f = .ok ys) {i : Nat} {x : α} {y : β} (hx : xs[i]? = some x)
    (hy : ys[i]? = some y) : f x = .ok y :=
  forall₂_getElem? (mapM_eq_ok.mp h) hx hy

theorem map_of_mapM_eq_ok {f : α → Except ε β} {g : β → α} (hg : ∀ x y, f x = .ok y → g y = x)
    {xs : List α} {ys : List β} (h : xs.mapM f = .ok ys) : ys.map g = xs := by
  have pointwise := mapM_eq_ok.mp h
  clear h
  induction pointwise with
  | nil => rfl
  | cons hxy _ ih => rw [List.map_cons, ih, hg _ _ hxy]

theorem mapM_congr {f g : α → Except ε β} :
    ∀ {xs : List α}, (∀ x ∈ xs, f x = g x) → xs.mapM f = xs.mapM g
  | [], _ => rfl
  | x :: xs, h => by
    rw [List.mapM_cons, List.mapM_cons, h x List.mem_cons_self,
      mapM_congr fun y hy => h y (List.mem_cons_of_mem x hy)]

theorem mem_of_mapM_eq_ok {f : α → Except ε β} {xs : List α} {ys : List β}
    (h : xs.mapM f = .ok ys) {y : β} (hy : y ∈ ys) : ∃ x ∈ xs, f x = .ok y := by
  induction mapM_eq_ok.mp h with
  | nil => simp at hy
  | @cons x y' xs ys hxy _ ih =>
    rcases List.mem_cons.mp hy with rfl | hy
    · exact ⟨x, List.mem_cons_self, hxy⟩
    · obtain ⟨z, hz, hzy⟩ := ih (mapM_eq_ok.mpr ‹_›) hy
      exact ⟨z, List.mem_cons_of_mem x hz, hzy⟩

theorem foldlM_ok_of_step {f : β → α → Except ε β} (P : β → Prop) :
    ∀ {xs : List α} {b : β}, P b → (∀ c x, x ∈ xs → P c → ∃ c', f c x = .ok c' ∧ P c') →
      ∃ b', xs.foldlM f b = .ok b' ∧ P b'
  | [], b, hb, _ => ⟨b, rfl, hb⟩
  | x :: xs, b, hb, step => by
    obtain ⟨c, hc, hP⟩ := step b x (List.mem_cons_self) hb
    obtain ⟨b', hb', hP'⟩ :=
      foldlM_ok_of_step P hP fun c y hy => step c y (List.mem_cons_of_mem x hy)
    exact ⟨b', by rw [List.foldlM_cons, hc]; exact hb', hP'⟩

theorem foldlM_ok_counting {f : β → α → Except ε β} (P : β → Prop) (count : β → Nat) :
    ∀ {xs : List α} {b : β}, P b →
      (∀ c x, x ∈ xs → P c → ∃ c', f c x = .ok c' ∧ P c' ∧ count c' = count c + 1) →
      ∃ b', xs.foldlM f b = .ok b' ∧ P b' ∧ count b' = count b + xs.length
  | [], b, hb, _ => ⟨b, rfl, hb, rfl⟩
  | x :: xs, b, hb, step => by
    obtain ⟨c, hc, hP, hcount⟩ := step b x (List.mem_cons_self) hb
    obtain ⟨b', hb', hP', hcount'⟩ :=
      foldlM_ok_counting P count hP fun c y hy => step c y (List.mem_cons_of_mem x hy)
    refine ⟨b', by rw [List.foldlM_cons, hc]; exact hb', hP', ?_⟩
    rw [hcount', hcount, List.length_cons]
    omega

theorem foldlM_inv_of_ok {f : β → α → Except ε β} (P : List α → β → Prop)
    (step : ∀ done x c c', P done c → f c x = .ok c' → P (done ++ [x]) c') :
    ∀ {xs done : List α} {b b' : β}, P done b → xs.foldlM f b = .ok b' → P (done ++ xs) b'
  | [], done, b, b', hb, h => by
    rw [List.foldlM_nil, pure_eq_ok] at h
    rw [List.append_nil, ← h]
    exact hb
  | x :: xs, done, b, b', hb, h => by
    rw [List.foldlM_cons, bind_eq_ok] at h
    obtain ⟨c, hc, h⟩ := h
    have hrest := foldlM_inv_of_ok P step (step done x b c hb hc) h
    rwa [List.append_assoc, List.singleton_append] at hrest

theorem foldlM_ok_of_forall {f : β → α → Except ε β} {xs : List α} {b : β}
    (step : ∀ c x, x ∈ xs → ∃ c', f c x = .ok c') : ∃ b', xs.foldlM f b = .ok b' := by
  obtain ⟨b', hb', -⟩ := foldlM_ok_of_step (fun _ => True) trivial fun c x hx _ =>
    (step c x hx).imp fun _ h => ⟨h, trivial⟩
  exact ⟨b', hb'⟩

theorem bind_ok_of_ok {x : Except ε α} {f : α → Except ε β} (hx : ∃ a, x = .ok a)
    (hf : ∀ a, x = .ok a → ∃ b, f a = .ok b) : ∃ b, x >>= f = .ok b := by
  obtain ⟨a, ha⟩ := hx
  obtain ⟨b, hb⟩ := hf a ha
  exact ⟨b, by rw [ha]; exact hb⟩

theorem foldlM_eq_map_mapM_filter {γ : Type} {f : β → α → Except ε β} {p : α → Bool}
    {g : α → Except ε γ} {k : β → γ → β}
    (hf : ∀ b x, f b x = if p x then k b <$> g x else pure b) :
    ∀ (xs : List α) (b : β), xs.foldlM f b = (fun cs => cs.foldl k b) <$> (xs.filter p).mapM g
  | [], _ => rfl
  | x :: xs, b => by
    rw [List.foldlM_cons, hf, List.filter_cons]
    by_cases hp : p x = true
    · simp only [hp, if_true, List.mapM_cons]
      cases g x with
      | error e => rfl
      | ok c =>
        show xs.foldlM f (k b c) = _
        rw [foldlM_eq_map_mapM_filter hf xs (k b c)]
        cases (xs.filter p).mapM g <;> rfl
    · simp only [hp, Bool.false_eq_true, if_false]
      exact foldlM_eq_map_mapM_filter hf xs b

/-- The result of a computation, or `d` when it faults. -/
def okOr (d : α) : Except ε α → α
  | .ok a => a
  | .error _ => d

theorem exists_eq_ok_of_isOk {x : Except ε α} (h : x.isOk) : ∃ a, x = .ok a := by
  cases x with
  | error e => cases h
  | ok a => exact ⟨a, rfl⟩

theorem mapM_eq_ok_iff {f : α → Except ε β} {d : β} :
    ∀ {xs : List α} {ys : List β},
      xs.mapM f = .ok ys ↔ (∀ x ∈ xs, (f x).isOk) ∧ ys = xs.map fun x => okOr d (f x)
  | [], ys => by cases ys <;> simp
  | x :: xs, ys => by
    rw [mapM_eq_ok, List.forall₂_cons_left_iff] at *
    constructor
    · rintro ⟨y, ys', hy, hrest, rfl⟩
      have ih := (mapM_eq_ok_iff (d := d)).mp (mapM_eq_ok.mpr hrest)
      refine ⟨?_, ?_⟩
      · intro z hz
        rcases List.mem_cons.mp hz with rfl | hz
        · rw [hy]; rfl
        · exact ih.1 z hz
      · rw [List.map_cons, ih.2, hy]
        rfl
    · rintro ⟨hok, rfl⟩
      have hx := hok x List.mem_cons_self
      have hrest : xs.mapM f = .ok (xs.map fun x => okOr d (f x)) :=
        (mapM_eq_ok_iff (d := d)).mpr ⟨fun z hz => hok z (List.mem_cons_of_mem x hz), rfl⟩
      obtain ⟨y, hy⟩ := exists_eq_ok_of_isOk hx
      exact ⟨y, _, hy, mapM_eq_ok.mp hrest, by rw [List.map_cons, hy]; rfl⟩

theorem okOr_map {f : α → β} (d : α) (x : Except ε α) : okOr (f d) (f <$> x) = f (okOr d x) := by
  cases x <;> rfl

theorem isOk_map {f : α → β} (x : Except ε α) : (f <$> x).isOk = x.isOk := by
  cases x <;> rfl

theorem map_eq_error {f : α → β} {x : Except ε α} {e : ε} (h : f <$> x = .error e) :
    x = .error e := by
  cases x with
  | error e' => cases h; rfl
  | ok a => cases h

theorem mapM_ite {c : α → Bool} {g : α → β} {e : ε} :
    ∀ xs : List α, xs.mapM (fun x => if c x then (.ok (g x) : Except ε β) else .error e) =
      if xs.all c then .ok (xs.map g) else .error e
  | [] => rfl
  | x :: xs => by
    rw [List.mapM_cons, mapM_ite xs, List.all_cons]
    by_cases hx : c x <;> by_cases hall : xs.all c <;> simp [hx, hall] <;> rfl

theorem mapM_eq_error {f : α → Except ε β} {e : ε} :
    ∀ {xs : List α}, xs.mapM f = .error e → ∃ x ∈ xs, f x = .error e
  | [], h => by cases h
  | x :: xs, h => by
    rw [List.mapM_cons] at h
    cases hfx : f x with
    | error e' =>
      rw [hfx] at h
      cases h
      exact ⟨x, List.mem_cons_self, hfx⟩
    | ok y =>
      rw [hfx] at h
      cases hrest : xs.mapM f with
      | error e' =>
        rw [hrest] at h
        cases h
        obtain ⟨z, hz, hfz⟩ := mapM_eq_error hrest
        exact ⟨z, List.mem_cons_of_mem x hz, hfz⟩
      | ok ys => rw [hrest] at h; cases h

theorem mapM_error_of_mem {f : α → Except ε β} :
    ∀ {xs : List α} {x : α}, x ∈ xs → (∃ e, f x = .error e) → ∃ e, xs.mapM f = .error e
  | y :: ys, x, hx, ⟨e, h⟩ => by
    rw [List.mapM_cons]
    cases hy : f y with
    | error e' => exact ⟨e', rfl⟩
    | ok b =>
      rcases List.mem_cons.mp hx with rfl | hx
      · rw [h] at hy
        cases hy
      · obtain ⟨e', he'⟩ := mapM_error_of_mem hx ⟨e, h⟩
        exact ⟨e', by rw [he']; rfl⟩

theorem mapM_eq_ite {f : α → Except ε β} {e : ε} (d : β) (herr : ∀ x e', f x = .error e' → e' = e)
    (xs : List α) :
    xs.mapM f =
      if xs.all fun x => (f x).isOk then .ok (xs.map fun x => okOr d (f x)) else .error e := by
  split
  · rename_i hall
    exact (mapM_eq_ok_iff (d := d)).mpr ⟨fun x hx => List.all_eq_true.mp hall x hx, rfl⟩
  · rename_i hall
    cases h : xs.mapM f with
    | error e' =>
      obtain ⟨x, -, hx⟩ := mapM_eq_error h
      rw [herr x e' hx]
    | ok ys => exact absurd (List.all_eq_true.mpr ((mapM_eq_ok_iff (d := d)).mp h).1) hall

end

end DoublesLineup
