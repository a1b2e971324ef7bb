import XLArig.Traced

/-!
# XLArig.Traced.Beside

Programs side by side in one store.

`Sim r x y Q` compares two programs whose stores agree on the region `r`: their values are
related by `Q`, their stores agree on `r` again, and `x` changes nothing outside.  It goes
through `do` blocks by `sim_bind`, through branches by `sim_ite` and through loops by
`sim_loop`.

`Follows Q x y` compares two programs on the same store: their values are related by `Q` and
they leave the same store.

When several lanes run in one store, each in a region of its own, each of them computes what
it computes alone: `Beside` relates the lanes to lone runs, and `Turns` says that a program for
all lanes carries it on; so do several in turn (`turns_cons`) and loops (`turns_loop`).
-/

namespace XLArig

namespace Traced

variable {σ ι ν τ α β γ δ : Type}

/-! ## Two programs on one store -/

/-- From the same store, the values are related by `Q` and the stores are the same again. -/
def Follows (Q : α → β → Prop) (x : Traced σ τ α) (y : Traced σ τ β) : Prop :=
  ∀ m, Q (x m).1 (y m).1 ∧ (x m).2.1 = (y m).2.1

section

variable {x : Traced σ τ α} {y : Traced σ τ β} {Q : α → β → Prop} {S : γ → δ → Prop}
  {f : α → Traced σ τ γ} {g : β → Traced σ τ δ}

theorem follows_refl (x : Traced σ τ α) : Follows Eq x x := fun _ => ⟨rfl, rfl⟩

theorem follows_bind (hx : Follows Q x y) (hf : ∀ a b, Q a b → Follows S (f a) (g b)) :
    Follows S (x >>= f) (y >>= g) := by
  intro m
  obtain ⟨hval, hstore⟩ := hx m
  have hnext := hf _ _ hval (y m).2.1
  show S (f (x m).1 (x m).2.1).1 _ ∧ (f (x m).1 (x m).2.1).2.1 = _
  rw [hstore]
  exact hnext

theorem follows_assoc {κ : Type} {x : Traced σ τ δ} {S : δ → κ → Prop} {h : γ → Traced σ τ κ}
    {y : Traced σ τ α} :
    Follows S x (y >>= f >>= h) ↔ Follows S x (y >>= fun a => f a >>= h) := Iff.rfl

/-- A step of both programs. -/
theorem follows_same {f : α → Traced σ τ γ} {g : α → Traced σ τ δ} (x : Traced σ τ α)
    (hf : ∀ a, Follows S (f a) (g a)) : Follows S (x >>= f) (x >>= g) := by
  refine follows_bind (follows_refl x) fun a b hab => ?_
  subst hab
  exact hf a

theorem follows_loop {Q : α → β → Prop} {f : α → Traced σ τ α} {g : β → Traced σ τ β} {a : α}
    {b : β} (hinit : Q a b) (hbody : ∀ a b, Q a b → Follows Q (f a) (g b)) (n : Nat) :
    Follows Q (loop (fun _ => f) n a) (loop (fun _ => g) n b) := by
  induction n with
  | zero => exact fun _ => ⟨hinit, rfl⟩
  | succ n ih => exact follows_bind ih hbody

/-- A list of one takes its turns alone. -/
theorem follows_each_singleton (fs : List (α → Traced σ τ α)) (a : α) :
    Follows (fun as a => as = [a]) (inTurn (fs.map each) [a]) (inTurn fs a) := by
  induction fs generalizing a with
  | nil => exact fun _ => ⟨rfl, rfl⟩
  | cons f fs ih =>
      have hfirst : Follows (fun as a => as = [a]) (each f [a]) (f a) := fun _ => ⟨rfl, rfl⟩
      refine follows_bind hfirst fun as a has => ?_
      subst has
      exact ih a

end

/-! ## Two programs on one region -/

/-- From stores that agree on `r`, the values are related by `Q`, the stores agree on `r`
again, and the first one changes outside of `r` nothing. -/
def Sim (r : Set ι) (x : Traced (ι → ν) τ α) (y : Traced (ι → ν) τ β) (Q : α → β → Prop) : Prop :=
  ∀ m m', Set.EqOn m m' r →
    Q (x m).1 (y m').1 ∧ Set.EqOn (x m).2.1 (y m').2.1 r ∧ Set.EqOn (x m).2.1 m rᶜ

section

variable {r : Set ι} {x : Traced (ι → ν) τ α} {y : Traced (ι → ν) τ β} {Q R : α → β → Prop}
  {S : γ → δ → Prop} {f : α → Traced (ι → ν) τ γ} {g : β → Traced (ι → ν) τ δ} {a : α} {b : β}
  {t u : τ}

theorem sim_pure (h : Q a b) :
    Sim r (pure a : Traced (ι → ν) τ α) (pure b : Traced (ι → ν) τ β) Q :=
  fun m _ hm => ⟨h, hm, Set.eqOn_refl m _⟩

theorem sim_bind (hx : Sim r x y Q) (hf : ∀ a b, Q a b → Sim r (f a) (g b) S) :
    Sim r (x >>= f) (y >>= g) S := by
  intro m m' hm
  obtain ⟨hval, hstore, hframe⟩ := hx m m' hm
  obtain ⟨hval', hstore', hframe'⟩ := hf _ _ hval _ _ hstore
  exact ⟨hval', hstore', hframe'.trans hframe⟩

/-- A step whose values do not matter. -/
theorem sim_seq (hx : Sim r x y fun _ _ => True) (hf : ∀ a b, Sim r (f a) (g b) S) :
    Sim r (x >>= f) (y >>= g) S :=
  sim_bind hx fun a b _ => hf a b

/-- A step with equal values. -/
theorem sim_same {y : Traced (ι → ν) τ α} {g : α → Traced (ι → ν) τ δ}
    (hx : Sim r x y Eq) (hf : ∀ a, Sim r (f a) (g a) S) : Sim r (x >>= f) (y >>= g) S := by
  refine sim_bind hx fun a b hab => ?_
  subst hab
  exact hf a

theorem sim_read {f g : (ι → ν) → γ} (h : ∀ m m', Set.EqOn m m' r → f m = g m') :
    Sim r (read t f) (read u g) Eq :=
  fun m m' hm => ⟨h m m' hm, hm, Set.eqOn_refl m _⟩

theorem sim_write {f g : (ι → ν) → ι → ν} (h : ∀ m m', Set.EqOn m m' r → Set.EqOn (f m) (g m') r)
    (hframe : ∀ m, Set.EqOn (f m) m rᶜ) : Sim r (write t f) (write u g) fun _ _ => True :=
  fun m m' hm => ⟨trivial, h m m' hm, hframe m⟩

theorem sim_ite {c : Prop} [Decidable c] {x' : Traced (ι → ν) τ α} {y' : Traced (ι → ν) τ β}
    (h : c → Sim r x y Q) (h' : ¬ c → Sim r x' y' Q) :
    Sim r (if c then x else x') (if c then y else y') Q := by
  by_cases hc : c
  · rw [if_pos hc, if_pos hc]
    exact h hc
  · rw [if_neg hc, if_neg hc]
    exact h' hc

theorem Sim.mono (hx : Sim r x y Q) (h : ∀ a b, Q a b → R a b) : Sim r x y R := by
  intro m m' hm
  obtain ⟨hval, hstore⟩ := hx m m' hm
  exact ⟨h _ _ hval, hstore⟩

/-- A program that does on the same store what one does that is compared. -/
theorem Sim.of_follows {z : Traced (ι → ν) τ γ} {P : γ → α → Prop} (h : Follows P z x)
    (hx : Sim r x y Q) : Sim r z y fun c b => ∃ a, P c a ∧ Q a b := by
  intro m m' hm
  obtain ⟨hval, hstore⟩ := h m
  obtain ⟨hval', hstore'⟩ := hx m m' hm
  rw [hstore]
  exact ⟨⟨_, hval, hval'⟩, hstore'⟩

theorem sim_loop {body : Nat → α → Traced (ι → ν) τ α} {body' : Nat → β → Traced (ι → ν) τ β}
    {n : Nat} {I : Nat → α → β → Prop} (hinit : I 0 a b)
    (hbody : ∀ i a b, i < n → I i a b → Sim r (body i a) (body' i b) (I (i + 1))) :
    Sim r (loop body n a) (loop body' n b) (I n) := by
  induction n with
  | zero => exact sim_pure hinit
  | succ n ih =>
      have hrounds := ih fun i a b hi => hbody i a b (by omega)
      exact sim_bind hrounds fun a b hab => hbody n a b (Nat.lt_succ_self n) hab

end

/-! ## Lanes -/

/-- A lane that runs alone: its region, its value and its store. -/
structure Lone (ι ν β : Type) where
  region : Set ι
  value : β
  store : ι → ν

/-- The lane after its next program. -/
def Lone.next (g : β → Traced (ι → ν) τ δ) (l : Lone ι ν β) : Lone ι ν δ :=
  ⟨l.region, (g l.value l.store).1, (g l.value l.store).2.1⟩

theorem next_congr {g g' : β → Traced (ι → ν) τ δ} (h : ∀ b, Follows Eq (g b) (g' b)) :
    Lone.next g = Lone.next g' := by
  funext l
  obtain ⟨hval, hstore⟩ := h l.value l.store
  rw [Lone.next, Lone.next, hval, hstore]

/-- The lanes are related to the lone ones, whose regions are apart, and the store shows in
each region what the lone store of it shows. -/
def Beside (R : Set ι → α → β → Prop) (m : ι → ν) (as : List α) (ls : List (Lone ι ν β)) : Prop :=
  ls.Pairwise (fun l l' => Disjoint l.region l'.region) ∧
    List.Forall₂ (fun a l => R l.region a l.value ∧ Set.EqOn m l.store l.region) as ls

section

variable {R : Set ι → α → β → Prop} {S : Set ι → γ → δ → Prop} {m m' : ι → ν} {as : List α}
  {ls : List (Lone ι ν β)} {f : α → Traced (ι → ν) τ γ} {g : β → Traced (ι → ν) τ δ}

theorem Beside.mono {R' : Set ι → α → β → Prop} (h : Beside R m as ls)
    (hR : ∀ r a b, R r a b → R' r a b) : Beside R' m as ls :=
  ⟨h.1, h.2.imp fun _ _ hl => ⟨hR _ _ _ hl.1, hl.2⟩⟩

/-- What is related to lane `i`. -/
theorem Beside.get (h : Beside R m as ls) {i : Nat} {l : Lone ι ν β} (hl : ls[i]? = some l) :
    ∃ a, as[i]? = some a ∧ R l.region a l.value ∧ Set.EqOn m l.store l.region := by
  obtain ⟨hi, rfl⟩ := List.getElem?_eq_some_iff.mp hl
  have hlength := h.2.length_eq
  have hi' : i < as.length := by omega
  exact ⟨as[i], List.getElem?_eq_getElem hi', h.2.get hi' hi⟩

/-- A store that differs outside of the regions only. -/
theorem Beside.congr (h : Beside R m as ls) (hm : ∀ l ∈ ls, Set.EqOn m' m l.region) :
    Beside R m' as ls := by
  obtain ⟨hapart, hlanes⟩ := h
  refine ⟨hapart, ?_⟩
  clear hapart
  induction hlanes with
  | nil => exact .nil
  | cons hhead htail ih =>
      have hfirst := hm _ List.mem_cons_self
      refine .cons ⟨hhead.1, hfirst.trans hhead.2⟩ (ih fun l hl => ?_)
      exact hm l (List.mem_cons_of_mem _ hl)

/-- One turn of all lanes, and what it leaves alone. -/
theorem each_spec (hsim : ∀ r a b, R r a b → Sim r (f a) (g b) (S r)) (h : Beside R m as ls) :
    Beside S (each f as m).2.1 (each f as m).1 (ls.map (Lone.next g)) ∧
      ∀ p, (∀ l ∈ ls, p ∉ l.region) → (each f as m).2.1 p = m p := by
  induction as generalizing m ls with
  | nil =>
      obtain ⟨_, hlanes⟩ := h
      cases hlanes
      exact ⟨⟨.nil, .nil⟩, fun _ _ => rfl⟩
  | cons a as ih =>
      obtain ⟨hapart, hlanes⟩ := h
      cases hlanes with
      | @cons _ l _ ls hhead htail =>
          obtain ⟨hfirst, hapart⟩ := List.pairwise_cons.mp hapart
          obtain ⟨hval, hstore, hframe⟩ := hsim _ _ _ hhead.1 _ _ hhead.2
          -- the other lanes do not see the turn of the first one
          have hothers : ∀ l' ∈ ls, Set.EqOn (f a m).2.1 m l'.region := fun l' hl' p hp =>
            hframe (Set.disjoint_right.mp (hfirst l' hl') hp)
          have hrest : Beside R (f a m).2.1 as ls := Beside.congr ⟨hapart, htail⟩ hothers
          obtain ⟨⟨hapart', hlanes'⟩, hframe'⟩ := ih hrest
          -- nor does the first one see theirs
          have hkeep : Set.EqOn (each f as (f a m).2.1).2.1 (f a m).2.1 l.region := fun p hp =>
            hframe' p fun l' hl' => Set.disjoint_left.mp (hfirst l' hl') hp
          refine ⟨⟨List.pairwise_cons.mpr ⟨?_, hapart'⟩, .cons ⟨hval, ?_⟩ hlanes'⟩, ?_⟩
          · exact List.forall_mem_map.mpr hfirst
          · exact hkeep.trans hstore
          · intro p hp
            have hnot : p ∉ l.region := hp l List.mem_cons_self
            have hnext := hframe' p fun l' hl' => hp l' (List.mem_cons_of_mem _ hl')
            exact hnext.trans (hframe hnot)

theorem beside_each (hsim : ∀ r a b, R r a b → Sim r (f a) (g b) (S r)) (h : Beside R m as ls) :
    Beside S (each f as m).2.1 (each f as m).1 (ls.map (Lone.next g)) :=
  (each_spec hsim h).1

/-- Every lane gets a new value. -/
theorem beside_map {f : α → γ} {g : β → δ} (hfg : ∀ r a b, R r a b → S r (f a) (g b))
    (h : Beside R m as ls) :
    Beside S m (as.map f) (ls.map (Lone.next fun b => (pure (g b) : Traced (ι → ν) τ δ))) := by
  obtain ⟨hapart, hlanes⟩ := h
  refine ⟨List.pairwise_map.mpr hapart, ?_⟩
  rw [List.forall₂_map_left_iff, List.forall₂_map_right_iff]
  exact hlanes.imp fun _ _ hl => ⟨hfg _ _ _ hl.1, hl.2⟩

/-- What the lanes were before they ran, over the store that they leave. -/
theorem Beside.keep (h : Beside R m as ls)
    (hrun : ∀ l ∈ ls.map (Lone.next g), Set.EqOn m' l.store l.region) :
    Beside R m' as (ls.map (Lone.next fun b => do
      let _ ← g b
      pure b)) := by
  obtain ⟨hapart, hlanes⟩ := h
  refine ⟨List.pairwise_map.mpr hapart, ?_⟩
  clear hapart
  induction hlanes with
  | nil => exact .nil
  | cons hhead htail ih =>
      have hfirst := hrun _ List.mem_cons_self
      exact .cons ⟨hhead.1, hfirst⟩ (ih fun l hl => hrun l (List.mem_cons_of_mem _ hl))

/-- The store shows in each region what the lone store of it shows. -/
theorem Beside.eqOn (h : Beside R m as ls) : ∀ l ∈ ls, Set.EqOn m l.store l.region := by
  intro l hl
  obtain ⟨i, hi⟩ := List.mem_iff_getElem?.mp hl
  obtain ⟨a, -, -, hm⟩ := h.get hi
  exact hm

end

/-! ## Turns of all lanes -/

/-- One program for each of two. -/
def both (f : α → Traced σ τ β) (p : α × α) : Traced σ τ (β × β) := do
  let b ← f p.1
  let b' ← f p.2
  pure (b, b')

/-- The lanes in what `turn` keeps go on as they do alone with `g`, from `R` to `S`. -/
def Turns {κ : Type} (lanes : κ → List α) (R S : Set ι → α → β → Prop)
    (turn : κ → Traced (ι → ν) τ κ) (g : β → Traced (ι → ν) τ β) : Prop :=
  ∀ m k ls, Beside R m (lanes k) ls →
    Beside S (turn k m).2.1 (lanes (turn k m).1) (ls.map (Lone.next g))

section

variable {κ : Type} {lanes : κ → List α} {R S U : Set ι → α → β → Prop}
  {turn turn' : κ → Traced (ι → ν) τ κ} {turns : List (κ → Traced (ι → ν) τ κ)}
  {f : α → Traced (ι → ν) τ α} {g g' : β → Traced (ι → ν) τ β}
  {gs : List (β → Traced (ι → ν) τ β)}

theorem turns_each (hsim : ∀ r a b, R r a b → Sim r (f a) (g b) (S r)) :
    Turns id R S (each f) g :=
  fun _ _ _ h => beside_each hsim h

/-- Two lanes are a list of two. -/
theorem turns_both (hsim : ∀ r a b, R r a b → Sim r (f a) (g b) (S r)) :
    Turns (fun p => [p.1, p.2]) R S (both f) g :=
  fun _ _ _ h => beside_each hsim h

theorem turns_nil : Turns lanes R R (inTurn []) (inTurn [] : β → Traced (ι → ν) τ β) := by
  intro m k ls h
  have hnext : ls.map (Lone.next (inTurn [] : β → Traced (ι → ν) τ β)) = ls := List.map_id ls
  rw [hnext]
  exact h

theorem turns_cons (hturn : Turns lanes R S turn g)
    (hturns : Turns lanes S U (inTurn turns) (inTurn gs)) :
    Turns lanes R U (inTurn (turn :: turns)) (inTurn (g :: gs)) := by
  intro m k ls h
  have hlast := hturns _ _ _ (hturn m k ls h)
  rw [List.map_map] at hlast
  exact hlast

/-- Both of two go through the same programs. -/
theorem turns_map_both {R : Set ι → α → α → Prop} {fs : List (α → Traced (ι → ν) τ α)}
    (hsim : ∀ f ∈ fs, ∀ r a b, R r a b → Sim r (f a) (f b) (R r)) :
    Turns (fun p => [p.1, p.2]) R R (inTurn (fs.map both)) (inTurn fs) := by
  induction fs with
  | nil => exact turns_nil
  | cons f fs ih =>
      have hfirst := turns_both (hsim f List.mem_cons_self)
      exact turns_cons hfirst (ih fun f hf => hsim f (List.mem_cons_of_mem _ hf))

/-- Turns that do the same. -/
theorem Turns.congr (h : Turns lanes R S turn g) (hturn : ∀ k, Follows Eq (turn' k) (turn k))
    (hg : ∀ b, Follows Eq (g b) (g' b)) : Turns lanes R S turn' g' := by
  intro m k ls hls
  obtain ⟨hval, hstore⟩ := hturn k m
  rw [hval, hstore, ← next_congr hg]
  exact h m k ls hls

theorem turns_loop (h : Turns lanes R R turn g) (n : Nat) :
    Turns lanes R R (loop (fun _ => turn) n) (loop (fun _ => g) n) := by
  intro m k ls hls
  induction n with
  | zero => exact turns_nil m k ls hls
  | succ n ih =>
      have hround := h _ _ _ ih
      rw [List.map_map] at hround
      exact hround

end

end Traced

end XLArig
