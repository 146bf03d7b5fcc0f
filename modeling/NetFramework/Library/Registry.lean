/-
Identities that are handed out once and given up once. `live` are those handed out and not given up, in the order in
which they were handed out.

`Lists`: a table of keys names the live identities, each by one key, in that order. `Lists.give` and `Lists.drop` are
the two ways to keep it so; `Lists.nodup` and `Lists.inj` say what it is worth.
-/
import Mathlib.Tactic

namespace Registry

/-- the identities handed out, and those given up again -/
structure Ledger (ι : Type*) where
  given : List ι
  gone : List ι
  nodup : given.Nodup
  gone_given : ∀ id ∈ gone, id ∈ given

variable {ι κ : Type*} [DecidableEq ι]

namespace Ledger

def empty : Ledger ι := ⟨[], [], List.nodup_nil, by simp⟩

def live (r : Ledger ι) : List ι := r.given.filter fun id => id ∉ r.gone

theorem mem_live {r : Ledger ι} {id : ι} : id ∈ r.live ↔ id ∈ r.given ∧ id ∉ r.gone := by
  simp [live]

theorem nodup_live (r : Ledger ι) : r.live.Nodup := r.nodup.filter _

def give (r : Ledger ι) (id : ι) (h : id ∉ r.given) : Ledger ι where
  given := r.given ++ [id]
  gone := r.gone
  nodup := by
    refine List.nodup_append.2 ⟨r.nodup, List.nodup_singleton id, ?_⟩
    intro a ha b hb
    rw [List.mem_singleton.1 hb]
    exact fun hab => h (hab ▸ ha)
  gone_given := fun id' hid => List.mem_append_left _ (r.gone_given id' hid)

def drop (r : Ledger ι) (id : ι) (h : id ∈ r.given) : Ledger ι where
  given := r.given
  gone := r.gone ++ [id]
  nodup := r.nodup
  gone_given := by
    intro id' hid
    rcases List.mem_append.1 hid with hid | hid
    · exact r.gone_given id' hid
    · rwa [List.mem_singleton.1 hid]

theorem live_give (r : Ledger ι) {id : ι} (h : id ∉ r.given) : (r.give id h).live = r.live ++ [id] := by
  have hid : id ∉ r.gone := fun hg => h (r.gone_given id hg)
  rw [live, live, give, List.filter_append, List.filter_singleton, decide_eq_true hid]
  rfl

theorem live_drop (r : Ledger ι) {id : ι} (h : id ∈ r.given) :
    (r.drop id h).live = r.live.filter fun id' => id' != id := by
  simp only [live, drop, List.filter_filter]
  refine List.filter_congr fun id' _ => ?_
  by_cases hid : id' = id <;> simp [hid]

end Ledger

/-- the keys `l` name the live identities, in order, through the partial map `f` -/
def Lists (f : κ → Option ι) (l : List κ) (r : Ledger ι) : Prop := l.map f = r.live.map some

section Lists

variable {f f' : κ → Option ι} {l : List κ} {r : Ledger ι}

theorem lists_empty (f : κ → Option ι) : Lists f [] .empty := rfl

theorem Lists.nodup (h : Lists f l r) : l.Nodup := by
  refine List.Nodup.of_map f ?_
  rw [h]
  exact r.nodup_live.map (Option.some_injective ι)

/-- no two keys of the table name one identity -/
theorem Lists.inj (h : Lists f l r) {p q : κ} (hp : p ∈ l) (hq : q ∈ l) (hpq : f p = f q) : p = q := by
  have hnodup : (l.map f).Nodup := by
    rw [h]; exact r.nodup_live.map (Option.some_injective ι)
  exact List.inj_on_of_nodup_map hnodup hp hq hpq

theorem Lists.mem_live (h : Lists f l r) {id : ι} : id ∈ r.live ↔ ∃ p ∈ l, f p = some id := by
  have hmem : some id ∈ l.map f ↔ id ∈ r.live := by
    rw [h, List.mem_map_of_injective (Option.some_injective ι)]
  rw [← hmem, List.mem_map]

theorem Lists.key_live (h : Lists f l r) {p : κ} (hp : p ∈ l) : ∃ id ∈ r.live, f p = some id := by
  have hmem : f p ∈ r.live.map some := h ▸ List.mem_map_of_mem hp
  obtain ⟨id, hid, hsome⟩ := List.mem_map.1 hmem
  exact ⟨id, hid, hsome.symm⟩

theorem Lists.congr (h : Lists f l r) (hf : ∀ p ∈ l, f' p = f p) : Lists f' l r := by
  rw [Lists, List.map_congr_left hf]
  exact h

/-- a key for a fresh identity goes to the end of the table -/
theorem Lists.give (h : Lists f l r) {k : κ} {id : ι} (hid : id ∉ r.given) (hk : f' k = some id)
    (hf : ∀ p ∈ l, f' p = f p) : Lists f' (l ++ [k]) (r.give id hid) := by
  rw [Lists, List.map_append, r.live_give hid, List.map_append, List.map_congr_left hf, h]
  simp [hk]

/-- the key of an identity given up leaves the table -/
theorem Lists.drop [DecidableEq κ] (h : Lists f l r) {k : κ} {id : ι} (hid : id ∈ r.given) (hk : k ∈ l)
    (hfk : f k = some id) (hf : ∀ p ∈ l, p ≠ k → f' p = f p) : Lists f' (l.erase k) (r.drop id hid) := by
  have herase : l.erase k = l.filter fun p => f p != some id := by
    rw [h.nodup.erase_eq_filter]
    refine List.filter_congr fun p hp => ?_
    have hiff : p = k ↔ f p = some id := ⟨fun hpk => hpk ▸ hfk, fun hp' => h.inj hp hk (hp'.trans hfk.symm)⟩
    rw [Bool.eq_iff_iff, bne_iff_ne, bne_iff_ne, ne_eq, ne_eq, hiff]
  calc (l.erase k).map f' = (l.erase k).map f := by
        refine List.map_congr_left fun p hp => hf p (List.mem_of_mem_erase hp) ?_
        rintro rfl
        exact absurd hp (h.nodup.not_mem_erase)
    _ = (l.map f).filter (fun x => x != some id) := by rw [herase, List.filter_map]; rfl
    _ = (r.live.map some).filter (fun x => x != some id) := by rw [h]
    _ = (r.drop id hid).live.map some := by
        rw [List.filter_map, r.live_drop hid]
        refine congrArg (List.map some) (List.filter_congr fun id' _ => ?_)
        rw [Bool.eq_iff_iff, bne_iff_ne, Function.comp_apply, bne_iff_ne, ne_eq, ne_eq, Option.some_inj]

end Lists

end Registry
