import Tendrilix.AllowedIps.Table

/-!
# AllowedIPs refines a finite map with longest-prefix match

`RouteMap` is the abstract table over both families. A run of the table is a list of calls with
the answers of its insertions; the abstract run replays the same calls and answers on the map.
-/

namespace Tendrilix

open PrefixWord AllowedIps

variable {D : Type}

inductive NetKey
  | v4 (p : Prefix 32)
  | v6 (p : Prefix 128)
  deriving DecidableEq

namespace NetKey

def ofNet : IpNet → NetKey
  | .v4 net => .v4 (Prefix.ofNet net)
  | .v6 net => .v6 (Prefix.ofNet net)

def toNet : NetKey → IpNet
  | .v4 p => .v4 ⟨p.network, p.len, p.len_le⟩
  | .v6 p => .v6 ⟨p.network, p.len, p.len_le⟩

def len : NetKey → ℕ
  | .v4 p => p.len
  | .v6 p => p.len

def Contains : NetKey → IpAddr → Prop
  | .v4 p, .v4 a => p.Contains a
  | .v6 p, .v6 a => p.Contains a
  | _, _ => False

def Meets (k l : NetKey) : Prop := ∃ a, k.Contains a ∧ l.Contains a

theorem toNet_injective : Function.Injective toNet := by
  intro k l h
  rcases k with ⟨_, _, _, _⟩ | ⟨_, _, _, _⟩ <;> rcases l with ⟨_, _, _, _⟩ | ⟨_, _, _, _⟩ <;>
    simp_all [toNet]

theorem ofNet_toNet (k : NetKey) : ofNet k.toNet = k := by
  cases k with
  | v4 p =>
    simp only [toNet, ofNet, Prefix.ofNet, Net.network_eq_mask]
    congr 1
    cases p
    simp_all
  | v6 p =>
    simp only [toNet, ofNet, Prefix.ofNet, Net.network_eq_mask]
    congr 1
    cases p
    simp_all

theorem Meets.symm {k l : NetKey} (h : k.Meets l) : l.Meets k := by
  obtain ⟨a, hk, hl⟩ := h
  exact ⟨a, hl, hk⟩

theorem meets_v4 {p q : Prefix 32} : (v4 p).Meets (v4 q) ↔ p.Meets q := by
  constructor
  · rintro ⟨a | a, hp, hq⟩
    · exact ⟨a, hp, hq⟩
    · exact hp.elim
  · rintro ⟨a, hp, hq⟩
    exact ⟨.v4 a, hp, hq⟩

theorem meets_v6 {p q : Prefix 128} : (v6 p).Meets (v6 q) ↔ p.Meets q := by
  constructor
  · rintro ⟨a | a, hp, hq⟩
    · exact hp.elim
    · exact ⟨a, hp, hq⟩
  · rintro ⟨a, hp, hq⟩
    exact ⟨.v6 a, hp, hq⟩

theorem not_meets_v4_v6 {p : Prefix 32} {q : Prefix 128} : ¬ (v4 p).Meets (v6 q) := by
  rintro ⟨a | a, hp, hq⟩
  · exact hq
  · exact hp

instance : (k l : NetKey) → Decidable (k.Meets l)
  | .v4 _, .v4 _ => decidable_of_iff _ meets_v4.symm
  | .v6 _, .v6 _ => decidable_of_iff _ meets_v6.symm
  | .v4 _, .v6 _ => isFalse not_meets_v4_v6
  | .v6 _, .v4 _ => isFalse fun h => not_meets_v4_v6 h.symm

theorem meets_self (k : NetKey) : k.Meets k := by
  cases k with
  | v4 p => exact meets_v4.mpr p.meets_self
  | v6 p => exact meets_v6.mpr p.meets_self

end NetKey

abbrev RouteMap (D : Type) := NetKey → Option D

namespace RouteMap

def empty : RouteMap D := fun _ => none

def insert (m : RouteMap D) (k : NetKey) (d : D) : RouteMap D := Function.update m k (some d)

def remove (m : RouteMap D) (f : D → Bool) : RouteMap D := fun k => (m k).filter (!f ·)

def v4 (m : RouteMap D) : PrefixMap 32 D := fun p => m (.v4 p)

def v6 (m : RouteMap D) : PrefixMap 128 D := fun p => m (.v6 p)

/-- `d` is the payload of the longest live prefix that contains `a`. -/
def Longest (m : RouteMap D) (a : IpAddr) (d : D) : Prop :=
  ∃ k, m k = some d ∧ k.Contains a ∧ ∀ l e, m l = some e → l.Contains a → l.len ≤ k.len

def Unrouted (m : RouteMap D) (a : IpAddr) : Prop := ∀ k d, m k = some d → ¬ k.Contains a

theorem v4_insert_v4 (m : RouteMap D) (p : Prefix 32) (d : D) :
    (m.insert (.v4 p) d).v4 = m.v4.insert p d := by
  funext q
  by_cases h : q = p <;> simp [v4, insert, PrefixMap.insert, h]

theorem v6_insert_v4 (m : RouteMap D) (p : Prefix 32) (d : D) :
    (m.insert (.v4 p) d).v6 = m.v6 := by
  funext q
  simp [v6, insert]

theorem v6_insert_v6 (m : RouteMap D) (p : Prefix 128) (d : D) :
    (m.insert (.v6 p) d).v6 = m.v6.insert p d := by
  funext q
  by_cases h : q = p <;> simp [v6, insert, PrefixMap.insert, h]

theorem v4_insert_v6 (m : RouteMap D) (p : Prefix 128) (d : D) :
    (m.insert (.v6 p) d).v4 = m.v4 := by
  funext q
  simp [v4, insert]

theorem longest_v4 {m : RouteMap D} {a : Ipv4Addr} {d : D} :
    m.Longest (.v4 a) d ↔ m.v4.Longest a d := by
  constructor
  · rintro ⟨p | p, hp, hpa, hmax⟩
    · exact ⟨p, hp, hpa, fun q e hq hqa => hmax (.v4 q) e hq hqa⟩
    · exact hpa.elim
  · rintro ⟨p, hp, hpa, hmax⟩
    refine ⟨.v4 p, hp, hpa, ?_⟩
    rintro (q | q) e hq hqa
    · exact hmax q e hq hqa
    · exact hqa.elim

theorem longest_v6 {m : RouteMap D} {a : Ipv6Addr} {d : D} :
    m.Longest (.v6 a) d ↔ m.v6.Longest a d := by
  constructor
  · rintro ⟨p | p, hp, hpa, hmax⟩
    · exact hpa.elim
    · exact ⟨p, hp, hpa, fun q e hq hqa => hmax (.v6 q) e hq hqa⟩
  · rintro ⟨p, hp, hpa, hmax⟩
    refine ⟨.v6 p, hp, hpa, ?_⟩
    rintro (q | q) e hq hqa
    · exact hqa.elim
    · exact hmax q e hq hqa

theorem unrouted_v4 {m : RouteMap D} {a : Ipv4Addr} :
    m.Unrouted (.v4 a) ↔ m.v4.Unrouted a := by
  constructor
  · intro h p d hp
    exact h (.v4 p) d hp
  · rintro h (p | p) d hp
    · exact h p d hp
    · exact fun hc => hc

theorem unrouted_v6 {m : RouteMap D} {a : Ipv6Addr} :
    m.Unrouted (.v6 a) ↔ m.v6.Unrouted a := by
  constructor
  · intro h p d hp
    exact h (.v6 p) d hp
  · rintro h (p | p) d hp
    · exact fun hc => hc
    · exact h p d hp

end RouteMap

namespace AllowedIPs

structure Refines (t : AllowedIPs D) (m : RouteMap D) : Prop where
  v4 : t.v4.Refines m.v4
  v6 : t.v6.Refines m.v6

variable {t : AllowedIPs D} {m : RouteMap D}

theorem new_refines : (new : AllowedIPs D).Refines RouteMap.empty :=
  ⟨Trie.new_refines, Trie.new_refines⟩

theorem remove_refines (h : t.Refines m) (f : D → Bool) : (t.remove f).Refines (m.remove f) :=
  ⟨Trie.remove_refines h.v4 f, Trie.remove_refines h.v6 f⟩

theorem insert_refines (capacity : Option ℕ) (h : t.Refines m) (net : IpNet) (d : D) :
    t.insert capacity net d = .ok (.error .full, t) ∨
    ∃ t', t.insert capacity net d = .ok (.ok (m (.ofNet net)), t') ∧
      t'.Refines (m.insert (.ofNet net) d) := by
  cases net with
  | v4 net =>
    have hp : (Prefix.ofNet net).network = mask net.network net.prefixLen :=
      (Prefix.ofNet net).masked.symm
    rcases Trie.insert_refines capacity h.v4 net.network net.prefixLen_le d hp rfl with
      hfull | ⟨t', hrun, href⟩
    · exact .inl (by simp [insert, IpNet.network, IpNet.prefixLen, hfull])
    · refine .inr ⟨{ t with v4 := t' }, ?_, ?_, ?_⟩
      · simp only [insert, IpNet.network, IpNet.prefixLen, hrun]
        rfl
      · rw [NetKey.ofNet, RouteMap.v4_insert_v4]
        exact href
      · rw [NetKey.ofNet, RouteMap.v6_insert_v4]
        exact h.v6
  | v6 net =>
    have hp : (Prefix.ofNet net).network = mask net.network net.prefixLen :=
      (Prefix.ofNet net).masked.symm
    rcases Trie.insert_refines capacity h.v6 net.network net.prefixLen_le d hp rfl with
      hfull | ⟨t', hrun, href⟩
    · exact .inl (by simp [insert, IpNet.network, IpNet.prefixLen, hfull])
    · refine .inr ⟨{ t with v6 := t' }, ?_, ?_, ?_⟩
      · simp only [insert, IpNet.network, IpNet.prefixLen, hrun]
        rfl
      · rw [NetKey.ofNet, RouteMap.v4_insert_v6]
        exact h.v4
      · rw [NetKey.ofNet, RouteMap.v6_insert_v6]
        exact href

theorem find_refines (h : t.Refines m) (a : IpAddr) :
    ∃ r, t.find a = .ok r ∧ (∀ d, r = some d ↔ m.Longest a d) ∧ (r = none ↔ m.Unrouted a) := by
  cases a with
  | v4 a =>
    obtain ⟨r, hr, hl⟩ := Trie.find_refines h.v4 a
    exact ⟨r, hr, fun d => hl.eq_some_iff.trans RouteMap.longest_v4.symm,
      hl.eq_none_iff.trans RouteMap.unrouted_v4.symm⟩
  | v6 a =>
    obtain ⟨r, hr, hl⟩ := Trie.find_refines h.v6 a
    exact ⟨r, hr, fun d => hl.eq_some_iff.trans RouteMap.longest_v6.symm,
      hl.eq_none_iff.trans RouteMap.unrouted_v6.symm⟩

theorem overlaps_refines (h : t.Refines m) (net : IpNet) :
    ∃ b, t.overlaps net = .ok b ∧ (b = true ↔ ∃ k d, m k = some d ∧ (NetKey.ofNet net).Meets k) := by
  cases net with
  | v4 net =>
    refine ⟨_, rfl, ?_⟩
    refine (Trie.overlaps_refines h.v4 net.network net.prefixLen_le
      (Prefix.ofNet net).masked.symm rfl).trans ?_
    constructor
    · rintro ⟨q, d, hq, hmeet⟩
      exact ⟨.v4 q, d, hq, NetKey.meets_v4.mpr hmeet⟩
    · rintro ⟨q | q, d, hq, hmeet⟩
      · exact ⟨q, d, hq, NetKey.meets_v4.mp hmeet⟩
      · exact absurd hmeet NetKey.not_meets_v4_v6
  | v6 net =>
    refine ⟨_, rfl, ?_⟩
    refine (Trie.overlaps_refines h.v6 net.network net.prefixLen_le
      (Prefix.ofNet net).masked.symm rfl).trans ?_
    constructor
    · rintro ⟨q, d, hq, hmeet⟩
      exact ⟨.v6 q, d, hq, NetKey.meets_v6.mpr hmeet⟩
    · rintro ⟨q | q, d, hq, hmeet⟩
      · exact absurd hmeet.symm NetKey.not_meets_v4_v6
      · exact ⟨q, d, hq, NetKey.meets_v6.mp hmeet⟩

theorem iter_v4 {items : List (D × Prefix 32)}
    (h : t.v4.iter = items.map fun x => (x.1, x.2.network, x.2.len)) :
    t.v4.iter.mapM (fun (d, pfx, len) => unwrapNet d (IpNet.new (.v4 pfx) len)) =
      .ok (items.map fun x => (x.1, (NetKey.v4 x.2).toNet)) := by
  rw [h, List.mapM_map]
  refine mapM_eq_ok fun x _ => ?_
  simp [unwrapNet, IpNet.new, Net.new, x.2.len_le, NetKey.toNet]

theorem iter_v6 {items : List (D × Prefix 128)}
    (h : t.v6.iter = items.map fun x => (x.1, x.2.network, x.2.len)) :
    t.v6.iter.mapM (fun (d, pfx, len) => unwrapNet d (IpNet.new (.v6 pfx) len)) =
      .ok (items.map fun x => (x.1, (NetKey.v6 x.2).toNet)) := by
  rw [h, List.mapM_map]
  refine mapM_eq_ok fun x _ => ?_
  simp [unwrapNet, IpNet.new, Net.new, x.2.len_le, NetKey.toNet]

theorem iter_refines (h : t.Refines m) :
    ∃ items : List (D × NetKey), t.iter = .ok (items.map fun x => (x.1, x.2.toNet)) ∧
      (items.map Prod.snd).Nodup ∧ ∀ d k, (d, k) ∈ items ↔ m k = some d := by
  obtain ⟨items4, h4, hnodup4, hmem4⟩ := Trie.iter_refines h.v4
  obtain ⟨items6, h6, hnodup6, hmem6⟩ := Trie.iter_refines h.v6
  refine ⟨items4.map (fun x => (x.1, .v4 x.2)) ++ items6.map (fun x => (x.1, .v6 x.2)), ?_, ?_, ?_⟩
  · rw [iter, iter_v4 h4, iter_v6 h6]
    simp [Function.comp_def]
  · rw [List.map_append, List.nodup_append]
    refine ⟨?_, ?_, ?_⟩
    · rw [List.map_map]
      have := hnodup4.map (f := NetKey.v4) (fun a b hab => NetKey.v4.inj hab)
      rwa [List.map_map] at this
    · rw [List.map_map]
      have := hnodup6.map (f := NetKey.v6) (fun a b hab => NetKey.v6.inj hab)
      rwa [List.map_map] at this
    · intro a ha b hb hab
      subst hab
      simp only [List.map_map, List.mem_map, Function.comp_apply] at ha hb
      obtain ⟨x, -, rfl⟩ := ha
      obtain ⟨y, -, hy⟩ := hb
      cases hy
  · intro d k
    cases k with
    | v4 p => simpa [RouteMap.v4] using hmem4 d p
    | v6 p => simpa [RouteMap.v6] using hmem6 d p

/-- The calls that change a table. -/
inductive Op (D : Type)
  | new
  | clear
  | insert (net : IpNet) (d : D)
  | remove (p : D → Bool)

/-- The answer of a call: what an insertion returns, and nothing otherwise. -/
abbrev Answer (D : Type) := Option (Except AllowedIPsError (Option D))

def step (capacity : Option ℕ) (t : AllowedIPs D) : Op D → Call (Answer D × AllowedIPs D)
  | .new => .ok (none, new)
  | .clear => .ok (none, t.clear)
  | .insert net d => do
    let (r, t') ← t.insert capacity net d
    return (some r, t')
  | .remove p => .ok (none, t.remove p)

def run (capacity : Option ℕ) : AllowedIPs D → List (Op D) → Call (List (Answer D) × AllowedIPs D)
  | t, [] => .ok ([], t)
  | t, op :: ops => do
    let (a, t') ← t.step capacity op
    let (as, t'') ← t'.run capacity ops
    return (a :: as, t'')

/-- What the abstract map allows a call to answer, and the map afterwards. -/
inductive AbstractStep : RouteMap D → Op D → Answer D → RouteMap D → Prop
  | new (m : RouteMap D) : AbstractStep m .new none RouteMap.empty
  | clear (m : RouteMap D) : AbstractStep m .clear none RouteMap.empty
  | inserted (m : RouteMap D) (net : IpNet) (d : D) :
      AbstractStep m (.insert net d) (some (.ok (m (.ofNet net)))) (m.insert (.ofNet net) d)
  | full (m : RouteMap D) (net : IpNet) (d : D) :
      AbstractStep m (.insert net d) (some (.error .full)) m
  | remove (m : RouteMap D) (p : D → Bool) : AbstractStep m (.remove p) none (m.remove p)

inductive AbstractRun : RouteMap D → List (Op D) → List (Answer D) → RouteMap D → Prop
  | nil (m : RouteMap D) : AbstractRun m [] [] m
  | cons {m m' m'' : RouteMap D} {op : Op D} {a : Answer D} {ops : List (Op D)}
      {as : List (Answer D)} (hstep : AbstractStep m op a m') (hrun : AbstractRun m' ops as m'') :
      AbstractRun m (op :: ops) (a :: as) m''

/-- Everything a caller can observe of a table, stated on the map. -/
structure Observes (capacity : Option ℕ) (t : AllowedIPs D) (m : RouteMap D) : Prop where
  insert_full : ∀ net d t', t.insert capacity net d = .ok (.error .full, t') → t' = t
  iter : ∃ items : List (D × NetKey), t.iter = .ok (items.map fun x => (x.1, x.2.toNet)) ∧
    (items.map Prod.snd).Nodup ∧ ∀ d k, (d, k) ∈ items ↔ m k = some d
  overlaps : ∀ net, ∃ b, t.overlaps net = .ok b ∧
    (b = true ↔ ∃ k d, m k = some d ∧ ∃ a, (NetKey.ofNet net).Contains a ∧ k.Contains a)
  find : ∀ a, ∃ r, t.find a = .ok r ∧ (∀ d, r = some d ↔ m.Longest a d) ∧
    (r = none ↔ m.Unrouted a)

theorem Refines.observes (capacity : Option ℕ) (h : t.Refines m) : t.Observes capacity m := by
  refine ⟨?_, iter_refines h, overlaps_refines h, find_refines h⟩
  intro net d t' hrun
  rcases insert_refines capacity h net d with hfull | ⟨t'', hok, -⟩
  · rw [hfull] at hrun
    cases hrun
    rfl
  · rw [hok] at hrun
    cases hrun

theorem step_refines (capacity : Option ℕ) (h : t.Refines m) (op : Op D) :
    ∃ a t' m', t.step capacity op = .ok (a, t') ∧ AbstractStep m op a m' ∧ t'.Refines m' := by
  cases op with
  | new => exact ⟨_, _, _, rfl, .new m, new_refines⟩
  | clear => exact ⟨_, _, _, rfl, .clear m, new_refines⟩
  | insert net d =>
    rcases insert_refines capacity h net d with hfull | ⟨t', hok, href⟩
    · exact ⟨_, _, _, by simp only [step, hfull]; rfl, .full m net d, h⟩
    · exact ⟨_, _, _, by simp only [step, hok]; rfl, .inserted m net d, href⟩
  | remove p => exact ⟨_, _, _, rfl, .remove m p, remove_refines h p⟩

theorem run_refines (capacity : Option ℕ) (ops : List (Op D)) (h : t.Refines m) :
    ∃ as t' m', t.run capacity ops = .ok (as, t') ∧ AbstractRun m ops as m' ∧ t'.Refines m' := by
  induction ops generalizing t m with
  | nil => exact ⟨[], t, m, rfl, .nil m, h⟩
  | cons op ops ih =>
    obtain ⟨a, t', m', hstep, habs, href⟩ := step_refines capacity h op
    obtain ⟨as, t'', m'', hrun, habs', href'⟩ := ih href
    refine ⟨a :: as, t'', m'', ?_, .cons habs habs', href'⟩
    simp only [run, hstep, hrun, ok_bind, pure_eq_ok]

/-- Every sequence of calls on a table is matched, answer by answer, by a finite map with
longest-prefix match, and what can be observed of the table afterwards is that map. -/
theorem run_refines_routeMap (capacity : Option ℕ) (ops : List (Op D)) :
    ∃ as t m, (new : AllowedIPs D).run capacity ops = .ok (as, t) ∧
      AbstractRun RouteMap.empty ops as m ∧ t.Observes capacity m := by
  obtain ⟨as, t, m, hrun, habs, href⟩ := run_refines capacity ops new_refines
  exact ⟨as, t, m, hrun, habs, href.observes capacity⟩

end AllowedIPs

end Tendrilix
