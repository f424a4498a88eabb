import Mathlib.Algebra.GroupWithZero.Nat
import ShieldedWallet.Proofs.History.Pass
import ShieldedWallet.Proofs.Program.Exclusive

/-!
# Passes one after another

Between two passes an account lives in the storage only. With a storage that hands out what was stored
last, the steps of some passes are one sequence of steps from the account stored at first, and the
account stored in the end is the last of them, however the passes ended.
-/

namespace ShieldedWallet

/-- The trace is that of a storage which holds the item `i` under the key at first and `j` in the end:
it hands out the item it holds or fails, and it replaces the item or fails. -/
inductive Trace.Keeps (key : String) : Option Bytes → Trace → Option Bytes → Prop where
  | nil (i : Option Bytes) : Keeps key i [] i
  | load {i j : Option Bytes} {t : Trace} (h : Keeps key i t j) :
      Keeps key i (⟨.load key, .ok i⟩ :: t) j
  | loadError {i j : Option Bytes} {t : Trace} {e : StorageFailure} (h : Keeps key i t j) :
      Keeps key i (⟨.load key, .error e⟩ :: t) j
  | store {i j : Option Bytes} {t : Trace} {x : Bytes} {u : Unit} (h : Keeps key (some x) t j) :
      Keeps key i (⟨.store key x, .ok u⟩ :: t) j
  | storeError {i j : Option Bytes} {t : Trace} {x : Bytes} {e : StorageFailure}
      (h : Keeps key i t j) : Keeps key i (⟨.store key x, .error e⟩ :: t) j
  | other {i j : Option Bytes} {t : Trace} {q : Query} {r : q.Answer} (hl : q ≠ .load key)
      (hs : ∀ x, q ≠ .store key x) (h : Keeps key i t j) : Keeps key i (⟨q, r⟩ :: t) j

/-- What is held in the end is what was stored last. -/
theorem Trace.Keeps.eq {key : String} {i j : Option Bytes} {t : Trace} (h : t.Keeps key i j) :
    j = (t.stored key).getLast?.or i := by
  induction h with
  | nil i => rfl
  | load _ ih => exact ih
  | loadError _ ih => exact ih
  | store _ ih =>
    rw [ih, stored_store, if_pos rfl, List.getLast?_cons]
    simp
  | storeError _ ih => exact ih
  | @other i j t q r hl hs _ ih =>
    rw [ih]
    cases q with
    | store k x =>
      have hne : k ≠ key := fun h => hs x (by rw [h])
      cases r with
      | error e => rfl
      | ok u => simp [hne]
    | _ => rfl

theorem Trace.Keeps.append {key : String} {i j : Option Bytes} {t t' : Trace}
    (h : Trace.Keeps key i (t ++ t') j) : ∃ k, t.Keeps key i k ∧ t'.Keeps key k j := by
  induction t generalizing i with
  | nil => exact ⟨i, .nil i, h⟩
  | cons x t ih =>
    cases h with
    | load h => obtain ⟨k, h₁, h₂⟩ := ih h; exact ⟨k, .load h₁, h₂⟩
    | loadError h => obtain ⟨k, h₁, h₂⟩ := ih h; exact ⟨k, .loadError h₁, h₂⟩
    | store h => obtain ⟨k, h₁, h₂⟩ := ih h; exact ⟨k, .store h₁, h₂⟩
    | storeError h => obtain ⟨k, h₁, h₂⟩ := ih h; exact ⟨k, .storeError h₁, h₂⟩
    | other hl hs h => obtain ⟨k, h₁, h₂⟩ := ih h; exact ⟨k, .other hl hs h₁, h₂⟩

theorem Trace.Keeps.concat {key : String} {i j k : Option Bytes} {t t' : Trace}
    (h : t.Keeps key i k) (h' : t'.Keeps key k j) : Trace.Keeps key i (t ++ t') j := by
  induction h with
  | nil i => exact h'
  | load _ ih => exact .load (ih h')
  | loadError _ ih => exact .loadError (ih h')
  | store _ ih => exact .store (ih h')
  | storeError _ ih => exact .storeError (ih h')
  | other hl hs _ ih => exact .other hl hs (ih h')

/-! ## Storages -/

/-- The environment keeps an item under the key: it hands out the item or fails, it replaces the item
or fails and leaves it, and nothing else changes it. -/
structure Keeps {σ : Type} (env : Environment surroundings σ) (key : String)
    (item : σ → Option Bytes) : Prop where
  load : ∀ s, ((env (.load key) s).1 = .ok (item s) ∨ ∃ e, (env (.load key) s).1 = .error e) ∧
    item (env (.load key) s).2 = item s
  store : ∀ x s, ((env (.store key x) s).1 = .ok () ∧ item (env (.store key x) s).2 = some x) ∨
    ((∃ e, (env (.store key x) s).1 = .error e) ∧ item (env (.store key x) s).2 = item s)
  other : ∀ q s, q ≠ .load key → (∀ x, q ≠ .store key x) → item (env q s).2 = item s

namespace Keeps

variable {σ : Type} {env : Environment surroundings σ} {key : String} {item : σ → Option Bytes}

theorem cons (hk : Keeps env key item) {q : Query} {s : σ} {t : Trace} {j : Option Bytes}
    (h : t.Keeps key (item (env q s).2) j) : Trace.Keeps key (item s) (⟨q, (env q s).1⟩ :: t) j := by
  by_cases hl : q = .load key
  · subst hl
    obtain ⟨ha, hi⟩ := hk.load s
    rw [hi] at h
    rcases ha with ha | ⟨e, ha⟩
    · rw [ha]
      exact .load h
    · rw [ha]
      exact .loadError h
  · by_cases hs : ∃ x, q = .store key x
    · obtain ⟨x, rfl⟩ := hs
      rcases hk.store x s with ⟨ha, hi⟩ | ⟨⟨e, ha⟩, hi⟩
      · rw [hi] at h
        rw [ha]
        exact .store h
      · rw [hi] at h
        rw [ha]
        exact .storeError h
    · have hne : ∀ x, q ≠ .store key x := fun x hx => hs ⟨x, hx⟩
      rw [hk.other q s hl hne] at h
      exact .other hl hne h

theorem amid (hk : Keeps env key item) {move : σ → σ → Prop}
    (hm : ∀ s s', move s s' → item s' = item s) {α : Type} {p : Program surroundings α} {s s' : σ}
    {t : Trace} {a : α} (h : Program.Amid env move p s t a s') : t.Keeps key (item s) (item s') := by
  induction h with
  | done a s => exact .nil _
  | ask _ ih => exact hk.cons ih
  | move h _ ih => rwa [hm _ _ h] at ih

theorem run (hk : Keeps env key item) {α : Type} (p : Program surroundings α) (s : σ) :
    Trace.Keeps key (item s) (p.trace env s) (item (p.run env s).2) :=
  hk.amid (fun _ _ h => h.elim) (Program.amid_run env (fun _ _ => False) p s)

end Keeps

/-! ## Passes -/

namespace History

variable {version : ContractVersion} {r : Register} {R : Account → NoteEvent → Account → Prop}
  {t t' : Trace} {a : Account} {xs ys : List Step} {i j : Option Bytes}

theorem Walked.append (h : Walked R r t a xs) (h' : Walked R r t' (lastOf a xs) ys) :
    Walked R r (t ++ t') a (xs ++ ys) where
  follows := follows_append.2 ⟨h.follows, h'.follows⟩
  stored_eq := by simp [h.stored_eq, h'.stored_eq]
  reported_eq := by simp [h.reported_eq, h'.reported_eq]

/-- The last record of a walk is that of its last account. -/
theorem getLast?_items (r : Register) (a : Account) (hne : xs ≠ []) :
    (xs.map fun x => r.item x.account).getLast? = some (r.item (lastOf a xs)) := by
  rw [List.getLast?_map, lastOf, List.getLast?_eq_some_getLast hne]
  rfl

/-- The account after the steps that were stored is the one that is read. -/
theorem read_of_stored (h : Follows (fun a e b => e.Leads a b) a xs)
    (hs : t.stored r.key = xs.map fun x => r.item x.account) (hk : t.Keeps r.key i j)
    (hread : r.read i = .ok a) : r.read j = .ok (lastOf a xs) := by
  rw [hk.eq, hs]
  by_cases hne : xs = []
  · rw [hne]
    exact hread
  · rw [getLast?_items r a hne, Option.some_or]
    have hid := h.id_lastOf
    have hn := h.nonce_lastOf
    have hlen := List.length_pos_iff.2 hne
    refine Register.read_item (hid.trans (Register.id_of_read hread)) (.inr fun h0 => ?_)
    rw [h0] at hn
    have hzero : (0 : UInt64).toNat = 0 := rfl
    omega

/-- The last account of a walk is the one that is stored. -/
theorem Walked.read_eq (h : Walked R r t a xs) (hR : ∀ a e b, R a e b → e.Leads a b)
    (hk : t.Keeps r.key i j) (hread : r.read i = .ok a) : r.read j = .ok (lastOf a xs) :=
  read_of_stored (h.follows.mono hR) h.stored_eq hk hread

/-- The first thing that is kept is what was loaded. -/
theorem keeps_load {answer : Except StorageFailure (Option Bytes)}
    (hk : Trace.Keeps r.key i (⟨.load r.key, answer⟩ :: t) j) :
    answer = .ok i ∨ ∃ x, answer = .error x := by
  cases hk with
  | load _ => exact .inl rfl
  | loadError _ => exact .inr ⟨_, rfl⟩
  | other hl _ _ => exact absurd rfl hl

/-- A question that is neither about storing nor telling does not matter for a walk. -/
theorem Walked.load {answer : Except StorageFailure (Option Bytes)} (h : Walked R r t a xs) :
    Walked R r (⟨.load r.key, answer⟩ :: t) a xs :=
  ⟨h.follows, h.stored_eq, h.reported_eq⟩

theorem Walked.exclusive (h : Walked R r t a xs) :
    Walked R r (⟨.acquire, ()⟩ :: (t ++ [⟨.release, ()⟩])) a xs := by
  refine ⟨h.follows, ?_, ?_⟩
  · show Trace.stored r.key (t ++ [⟨.release, ()⟩]) = _
    rw [Trace.stored_append, h.stored_eq]
    exact List.append_nil _
  · show Trace.reported (t ++ [⟨.release, ()⟩]) = _
    rw [Trace.reported_append, h.reported_eq]
    exact List.append_nil _

/-- A pass walks from the account that it has loaded, or fails because it could not load one. -/
theorem yields_pass {res : Except Failure Nat} (h : (pass version r).run.Yields t res)
    (hR : ∀ t' a b e, t' <:+: t → (next? version a).run.Yields t' (.ok (some (b, e))) → R a e b) :
    ∃ answer, (⟨.load r.key, answer⟩ : Exchange surroundings) ∈ t ∧
      match loaded r answer with
      | .error e => res = .error e
      | .ok a => ∃ xs, Walked R r t a xs ∧ Ends version r t a xs (stepsLeft a) res xs.length := by
  rw [pass_eq] at h
  obtain ⟨t', rfl, h'⟩ := Action.yields_exclusive_iff.1 h
  rcases Action.yields_bind h' with ⟨e, he, rfl⟩ | ⟨t₁, t₂, a, rfl, h₁, h₂⟩
  · obtain ⟨answer, rfl, hr⟩ := yields_load he
    refine ⟨answer, by simp, ?_⟩
    rw [← hr]
  · obtain ⟨answer, rfl, hr⟩ := yields_load h₁
    refine ⟨answer, by simp, ?_⟩
    rw [← hr]
    have hinfix : t₂ <:+: ⟨.acquire, ()⟩ :: (([⟨.load r.key, answer⟩] ++ t₂) ++ [⟨.release, ()⟩]) :=
      ⟨[⟨.acquire, ()⟩, ⟨.load r.key, answer⟩], [⟨.release, ()⟩], rfl⟩
    obtain ⟨xs, hw, hend⟩ := yields_advance h₂ fun t' a b e ht' => hR t' a b e (ht'.trans hinfix)
    rw [Nat.zero_add] at hend
    exact ⟨xs, hw.load.exclusive, hend.mono hinfix⟩

/-- Catching up walks from the stored account. If it fails before its walk, it stores nothing. -/
theorem walked_catchUp {res : Except Failure Nat} (h : (catchUp version r).run.Yields t res)
    (hk : t.Keeps r.key i j) (hread : r.read i = .ok a)
    (hR : ∀ t' a b e, t' <:+: t → (next? version a).run.Yields t' (.ok (some (b, e))) → R a e b) :
    ∃ xs, Walked R r t a xs ∧ (Ends version r t a xs (stepsLeft a) res xs.length ∨
      ∃ e x, res = .error e ∧ (⟨.load r.key, .error x⟩ : Exchange surroundings) ∈ t) := by
  have hloaded : ∀ {answer} {u : Trace}, Trace.Keeps r.key i (⟨.load r.key, answer⟩ :: u) j →
      loaded r answer = .ok a ∨ ∃ x, answer = .error x ∧ ∃ e, loaded r answer = .error e := by
    intro answer u hk
    rcases keeps_load hk with rfl | ⟨x, rfl⟩
    · exact .inl hread
    · exact .inr ⟨x, rfl, _, rfl⟩
  rcases Action.yields_bind h with ⟨e, he, rfl⟩ | ⟨t₁, t₂, a', rfl, h₁, h₂⟩
  · obtain ⟨answer, rfl, hr⟩ := yields_load he
    rcases hloaded hk with ha | ⟨x, rfl, -⟩
    · rw [ha] at hr
      cases hr
    · exact ⟨[], walked_nil (by simp) |>.load, .inr ⟨e, x, rfl, by simp⟩⟩
  · obtain ⟨answer, rfl, hr⟩ := yields_load h₁
    rcases hloaded hk with ha | ⟨x, -, e, he⟩
    · obtain rfl : a' = a := Except.ok.inj (hr.trans ha)
      have hinfix : t₂ <:+: ⟨.load r.key, answer⟩ :: t₂ := (List.suffix_cons _ _).isInfix
      obtain ⟨xs, hw, hend⟩ := yields_advance h₂ fun t' a b e ht' => hR t' a b e (ht'.trans hinfix)
      rw [Nat.zero_add] at hend
      exact ⟨xs, hw.load, .inl (hend.mono hinfix)⟩
    · rw [he] at hr
      cases hr

/-- A pass walks from the stored account. If it fails before its walk, it stores nothing. -/
theorem walked_pass {res : Except Failure Nat} (h : (pass version r).run.Yields t res)
    (hk : t.Keeps r.key i j) (hread : r.read i = .ok a)
    (hR : ∀ t' a b e, t' <:+: t → (next? version a).run.Yields t' (.ok (some (b, e))) → R a e b) :
    ∃ xs, Walked R r t a xs ∧ (Ends version r t a xs (stepsLeft a) res xs.length ∨
      ∃ e x, res = .error e ∧ (⟨.load r.key, .error x⟩ : Exchange surroundings) ∈ t) := by
  rw [pass_eq] at h
  obtain ⟨t', rfl, h'⟩ := Action.yields_exclusive_iff.1 h
  have hinfix : t' <:+: ⟨.acquire, ()⟩ :: (t' ++ [⟨.release, ()⟩]) :=
    ⟨[⟨.acquire, ()⟩], [⟨.release, ()⟩], rfl⟩
  obtain ⟨k, hk', -⟩ : ∃ k, Trace.Keeps r.key i t' k ∧ Trace.Keeps r.key k [⟨.release, ()⟩] j := by
    cases hk with
    | other _ _ hk => exact hk.append
  obtain ⟨xs, hw, hend⟩ := walked_catchUp h' hk' hread fun t' a b e ht' => hR t' a b e (ht'.trans hinfix)
  refine ⟨xs, hw.exclusive, ?_⟩
  rcases hend with hend | ⟨e, x, he, hx⟩
  · exact .inl (hend.mono hinfix)
  · exact .inr ⟨e, x, he, hinfix.subset hx⟩

/-- The steps of complete passes are one walk from the account stored at first, and if all of them
succeed, their results count its steps. -/
theorem walked_runs {res : List (Except Failure Nat)} (h : Program.Runs (pass version r).run t res)
    (hk : t.Keeps r.key i j) (hread : r.read i = .ok a)
    (hRl : ∀ a e b, R a e b → e.Leads a b)
    (hR : ∀ t' a b e, t' <:+: t → (next? version a).run.Yields t' (.ok (some (b, e))) → R a e b) :
    ∃ xs, Walked R r t a xs ∧
      ((∀ x ∈ res, ∃ n, x = .ok n) → xs.length = (res.filterMap Except.toOption).sum) := by
  induction h generalizing i a with
  | nil =>
    exact ⟨[], walked_nil (by simp), fun _ => rfl⟩
  | @cons t u res₁ res h₁ _ ih =>
    obtain ⟨k, hk₁, hk₂⟩ := hk.append
    obtain ⟨xs, hx, hend⟩ := walked_pass h₁ hk₁ hread fun t' a b e ht' =>
      hR t' a b e (ht'.trans (List.prefix_append _ _).isInfix)
    obtain ⟨ys, hy, hsum⟩ := ih hk₂ (hx.read_eq hRl hk₁ hread) fun t' a b e ht' =>
      hR t' a b e (ht'.trans (List.suffix_append _ _).isInfix)
    refine ⟨xs ++ ys, hx.append hy, fun hok => ?_⟩
    obtain ⟨n, rfl⟩ := hok res₁ (by simp)
    have hn : n = xs.length := by
      rcases hend with hend | ⟨e, x, he, -⟩
      · exact hend.eq_of_ok.symm
      · cases he
    rw [List.length_append, hsum fun x hx => hok x (List.mem_cons_of_mem _ hx), List.filterMap_cons, hn]
    rfl

/-- Some passes, one after another, with what each of them ended with. -/
def passes (version : ContractVersion) (r : Register) :
    Nat → Program surroundings (List (Except Failure Nat))
  | 0 => .done []
  | n + 1 => (pass version r).run.bind fun x => (passes version r n).bind fun xs => .done (x :: xs)

theorem runs_passes {n : Nat} {res : List (Except Failure Nat)}
    (h : (passes version r n).Yields t res) : Program.Runs (pass version r).run t res := by
  induction n generalizing t res with
  | zero =>
    obtain ⟨rfl, rfl⟩ := Program.yields_done_iff.1 h
    exact .nil
  | succ n ih =>
    obtain ⟨t₁, t₂, res₁, rfl, h₁, h'⟩ := Program.yields_bind_iff.1 h
    obtain ⟨t₃, t₄, res₂, rfl, h₂, h₃⟩ := Program.yields_bind_iff.1 h'
    obtain ⟨rfl, rfl⟩ := Program.yields_done_iff.1 h₃
    rw [List.append_nil]
    exact .cons h₁ (ih h₂)

/-- The steps of some passes are one walk from the account stored at first. -/
theorem walked_passes {n : Nat} {res : List (Except Failure Nat)}
    (h : (passes version r n).Yields t res) (hk : t.Keeps r.key i j) (hread : r.read i = .ok a)
    (hRl : ∀ a e b, R a e b → e.Leads a b)
    (hR : ∀ t' a b e, t' <:+: t → (next? version a).run.Yields t' (.ok (some (b, e))) → R a e b) :
    ∃ xs, Walked R r t a xs := by
  obtain ⟨xs, hx, -⟩ := walked_runs (runs_passes h) hk hread hRl hR
  exact ⟨xs, hx⟩

end History

end ShieldedWallet
