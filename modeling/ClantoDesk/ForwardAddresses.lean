import ClantoDesk.Guards
import ClantoDesk.ForwardTargets

/-!
The addresses the full check of a forward returns, src/clanto/forwarding/policy.rs. A rule covers
an address by its network or `*`, or by the name that is asked for. Two things go beyond this. A
rule `localhost` covers every loopback address, and the name `localhost` stands for the
loopback addresses of both kinds when a rule covers the first of them.
-/
namespace ClantoDesk.ForwardAddresses

open Text IpAddress ForwardTargets

def InNetwork (ip : IpAddr) (network : Network) : Prop :=
  ip.width = network.ip.width ∧ ∀ i, i < network.bits → ip.bit i = network.ip.bit i

def NamedBy (n host : Str) : Prop :=
  parseIp (bare host) = none ∧ n.map Char.toLower = (bare host).map Char.toLower

/-- The rule covers the address when `host` is asked for. -/
inductive Covers (p : Pattern) (host : Str) (ip : IpAddr) : Prop
  | any : p.addr = .any → Covers p host ip
  | network (network : Network) : p.addr = .net network → InNetwork ip network → Covers p host ip
  | name (n : Str) : p.addr = .name n → NamedBy n host → Covers p host ip

/-- What the rules cover once loopback addresses stand for each other. -/
inductive CoversAlias (p : Pattern) (host : Str) (ip : IpAddr) : Prop
  | direct : Covers p host ip → CoversAlias p host ip
  | localhost (n : Str) : p.addr = .name n → isLoopbackName n = true → ip.isLoopback = true →
      CoversAlias p host ip
  | second : parseIp (bare host) = none → isLoopbackName (bare host) = true →
      ip = .localhost6 → Covers p host .localhost4 → CoversAlias p host ip

variable (p : Pattern) (patterns : List Pattern)

theorem covers_of_nameOk (host : Str) (ip : IpAddr)
    (hip : parseIp (bare host) = none) (h : p.nameOk (bare host) = true) : Covers p host ip := by
  cases haddr : p.addr with
  | any => exact .any haddr
  | name n =>
    rw [Pattern.nameOk, haddr] at h
    exact .name n haddr ⟨hip, (eqIgnoreAsciiCase_iff _ _).mp h⟩
  | net network =>
    rw [Pattern.nameOk, haddr] at h
    cases h

/-- What the test on addresses admits is covered, or is a loopback address for `localhost`. -/
theorem coversAlias_of_ipOk (host : Str) (ip : IpAddr) (h : p.ipOk ip = true) :
    CoversAlias p host ip := by
  cases haddr : p.addr with
  | any => exact .direct (.any haddr)
  | net network =>
    rw [Pattern.ipOk, haddr] at h
    exact .direct (.network network haddr ((inNet_iff _ _ _).mp h))
  | name n =>
    rw [Pattern.ipOk, haddr] at h
    obtain ⟨hname, hloop⟩ := Bool.and_eq_true_iff.mp h
    exact .localhost n haddr hname hloop

theorem isLoopback_localhost6 : IpAddr.localhost6.isLoopback = true := by decide

/-- A rule that admits `localhost` covers both loopback addresses, up to aliases. -/
theorem coversAlias_loopback (host : Str) (ip : IpAddr)
    (hip : parseIp (bare host) = none) (hname : isLoopbackName (bare host) = true)
    (hok : p.nameOk (bare host) = true ∨ p.ipOk .localhost4 = true)
    (hmem : ip = .localhost4 ∨ ip = .localhost6) : CoversAlias p host ip := by
  rcases hok with hnameOk | hipOk
  · exact .direct (covers_of_nameOk p host ip hip hnameOk)
  · rcases hmem with rfl | rfl
    · exact coversAlias_of_ipOk p host _ hipOk
    · cases coversAlias_of_ipOk p host _ hipOk with
      | direct hcovers => exact .second hip hname rfl hcovers
      | localhost n haddr hn _ => exact .localhost n haddr hn isLoopback_localhost6
      | second _ _ hsame _ => cases hsame

theorem exists_of_any (port : UInt16) (f : Pattern → Bool)
    (h : (patterns.any fun p => p.portOk port && f p) = true) :
    ∃ p ∈ patterns, p.portOk port = true ∧ f p = true := by
  obtain ⟨p, hp, hok⟩ := List.any_eq_true.mp h
  obtain ⟨hport, hf⟩ := Bool.and_eq_true_iff.mp hok
  exact ⟨p, hp, hport, hf⟩

theorem covered_of_check (host : Str) (port : UInt16)
    (resolved : List IpAddr) (target : Target) (h : check patterns host port resolved = some target)
    (a : SocketAddr) (ha : a ∈ target) :
    a.2 = port ∧ ∃ p ∈ patterns, p.portOk port = true ∧ CoversAlias p host a.1 := by
  unfold check at h
  split at h
  · split at h
    · rename_i ip hip hany
      obtain rfl := Option.some.inj h
      obtain rfl := List.mem_singleton.mp ha
      obtain ⟨p, hp, hport, hok⟩ := exists_of_any _ _ _ hany
      exact ⟨rfl, p, hp, hport, coversAlias_of_ipOk p host ip hok⟩
    · cases h
  · rename_i hip
    split at h
    · rename_i hname
      obtain ⟨hany, rfl⟩ := of_guard h
      obtain ⟨p, hp, hport, hok⟩ := exists_of_any _ _ _ hany
      rw [Bool.or_eq_true] at hok
      rw [loopbackAddrs, List.mem_cons, List.mem_singleton] at ha
      rcases ha with rfl | rfl
      · exact ⟨rfl, p, hp, hport, coversAlias_loopback p host _ hip hname hok (Or.inl rfl)⟩
      · exact ⟨rfl, p, hp, hport, coversAlias_loopback p host _ hip hname hok (Or.inr rfl)⟩
    · split at h
      · rename_i hany
        obtain ⟨p, hp, hport, hok⟩ := exists_of_any _ _ _ hany
        simp only at h
        obtain ⟨-, rfl⟩ := of_guard_not h
        obtain ⟨ip, -, rfl⟩ := List.mem_map.mp ha
        exact ⟨rfl, p, hp, hport, .direct (covers_of_nameOk p host ip hip hok)⟩
      · simp only at h
        obtain ⟨-, rfl⟩ := of_guard_not h
        obtain ⟨ip, hmem, rfl⟩ := List.mem_map.mp ha
        obtain ⟨p, hp, hport, hok⟩ := exists_of_any _ _ _ (List.mem_filter.mp hmem).2
        exact ⟨rfl, p, hp, hport, coversAlias_of_ipOk p host ip hok⟩

theorem any_mono (more : List Pattern) (f : Pattern → Bool) (hsub : patterns ⊆ more)
    (h : patterns.any f = true) : more.any f = true := by
  obtain ⟨p, hp, hf⟩ := List.any_eq_true.mp h
  exact List.any_eq_true.mpr ⟨p, hsub hp, hf⟩

def nonEmpty (target : Target) : Option Target := if target.isEmpty then none else some target

theorem nonEmpty_mono (target larger : Target) (hsub : target.Sublist larger) (t : Target)
    (h : nonEmpty target = some t) : ∃ t', nonEmpty larger = some t' ∧ t.Sublist t' := by
  unfold nonEmpty at h
  obtain ⟨hne, rfl⟩ := of_guard_not h
  refine ⟨larger, ?_, hsub⟩
  rw [nonEmpty, if_neg]
  intro hempty
  rw [List.isEmpty_iff.mp hempty, List.sublist_nil] at hsub
  exact hne (List.isEmpty_iff.mpr hsub)

theorem check_mono (more : List Pattern) (host : Str) (port : UInt16)
    (resolved : List IpAddr) (target : Target) (hsub : patterns ⊆ more)
    (h : check patterns host port resolved = some target) :
    ∃ target', check more host port resolved = some target' ∧ target.Sublist target' := by
  unfold check at h ⊢
  split
  · rename_i ip hip
    simp only [hip] at h
    split at h
    · rename_i hany
      rw [if_pos (any_mono _ _ _ hsub hany)]
      exact ⟨target, h, List.Sublist.refl _⟩
    · cases h
  · rename_i hip
    simp only [hip] at h
    split
    · rename_i hname
      rw [if_pos hname] at h
      split at h
      · rename_i hany
        rw [if_pos (any_mono _ _ _ hsub hany)]
        exact ⟨target, h, List.Sublist.refl _⟩
      · cases h
    · rename_i hname
      rw [if_neg hname] at h
      split at h
      · rename_i hany
        rw [if_pos (any_mono _ _ _ hsub hany)]
        exact ⟨target, h, List.Sublist.refl _⟩
      · -- no rule has the name: with more rules all addresses may come, or more of them
        split
        · exact nonEmpty_mono _ _ (List.filter_sublist.map _) target h
        · refine nonEmpty_mono _ _ (List.Sublist.map _ ?_) target h
          exact List.monotone_filter_right _ fun ip hany => any_mono _ _ _ hsub hany

/-- Every address to connect to has the port asked for, and a rule on this port covers it: by its
network or `*`, by the name asked for, by being `localhost`, or because the host is `localhost` and
the rule covers 127.0.0.1. More rules never take an address away. -/
theorem check_sound (patterns : List Pattern) (host : Str) (port : UInt16) (resolved : List IpAddr)
    (target : Target) (h : check patterns host port resolved = some target) :
    (∀ a ∈ target, a.2 = port ∧
      ∃ p ∈ patterns, p.portOk port = true ∧ CoversAlias p host a.1) ∧
    ∀ more, patterns ⊆ more →
      ∃ target', check more host port resolved = some target' ∧ target.Sublist target' :=
  ⟨fun a ha => covered_of_check patterns host port resolved target h a ha,
    fun more hsub => check_mono patterns more host port resolved target hsub h⟩

/-- A rule for 127.0.0.1 and the name `localhost`. -/
theorem check_sound_sample : let patterns := parseList "127.0.0.1:3389".toList
    (∀ a ∈ loopbackAddrs 3389, a.2 = 3389 ∧
      ∃ p ∈ patterns, p.portOk 3389 = true ∧ CoversAlias p "localhost".toList a.1) ∧
    ∀ more, patterns ⊆ more → ∃ target',
      check more "localhost".toList 3389 [] = some target' ∧
        (loopbackAddrs 3389).Sublist target' :=
  check_sound (parseList "127.0.0.1:3389".toList) "localhost".toList 3389 [] (loopbackAddrs 3389)
    (by decide)

/-- The rule for 127.0.0.1 is the only one, and ::1 is also returned. -/
theorem second_loopback_uncovered :
    ¬ ∀ (patterns : List Pattern) (host : Str) (port : UInt16) (resolved : List IpAddr)
      (target : Target), check patterns host port resolved = some target →
      ∀ a ∈ target, a.2 = port ∧ ∃ p ∈ patterns, p.portOk port = true ∧ Covers p host a.1 := by
  intro hall
  have hpatterns : parseList "127.0.0.1:3389".toList =
      [⟨.net ⟨.localhost4, 32, by decide⟩, (3389, 3389)⟩] := by decide
  obtain ⟨-, p, hp, -, hcovers⟩ := hall (parseList "127.0.0.1:3389".toList) "localhost".toList 3389
    [] (loopbackAddrs 3389) (by decide) (.localhost6, 3389) (by decide)
  rw [hpatterns, List.mem_singleton] at hp
  subst hp
  cases hcovers with
  | any haddr => cases haddr
  | network network haddr hin =>
    obtain rfl := Addr.net.inj haddr
    exact absurd hin.1 (by decide)
  | name n haddr _ => cases haddr

end ClantoDesk.ForwardAddresses
