import Sentential.Parentheses
import Sentential.Proofs.Grammar

/-!
# Matching parentheses

Parentheses are balanced if no prefix closes more of them than it opens and the whole opens as many
as it closes. `Token.checkParentheses_eq_ok`: this is what is found before a list of tokens is read.
-/

namespace Sentential

namespace Symbol

/-- Where `opened` parentheses are open before the first symbol, none is closed that is not open and
none is open behind the last. -/
def Closes (opened : Nat) (symbols : List Symbol) : Prop :=
  (∀ u, u <+: symbols → 0 ≤ opened + balance u) ∧ opened + balance symbols = 0

def Balanced (symbols : List Symbol) : Prop := Closes 0 symbols

variable {opened : Nat} {symbols : List Symbol}

@[simp] theorem closes_nil : Closes opened [] ↔ opened = 0 := by
  simp [Closes, balance]

theorem closes_cons {s : Symbol} {next : Nat} (h : (next : Int) = opened + balance [s]) :
    Closes opened (s :: symbols) ↔ Closes next symbols := by
  have behind (u : List Symbol) : opened + balance (s :: u) = next + balance u := by
    have := balance_append [s] u
    simp only [List.singleton_append] at this
    omega
  simp only [Closes, behind, List.prefix_cons_iff]
  constructor
  · rintro ⟨bounded, ended⟩
    refine ⟨fun u pre => ?_, ended⟩
    have := bounded (s :: u) (.inr ⟨u, rfl, pre⟩)
    rwa [behind] at this
  · rintro ⟨bounded, ended⟩
    refine ⟨?_, ended⟩
    rintro u (rfl | ⟨u, rfl, pre⟩)
    · simp [balance]
    · rw [behind]
      exact bounded u pre

@[simp] theorem closes_opening :
    Closes opened (.opening :: symbols) ↔ Closes (opened + 1) symbols :=
  closes_cons (by simp [balance])

@[simp] theorem closes_closing :
    Closes (opened + 1) (.closing :: symbols) ↔ Closes opened symbols :=
  closes_cons (by simp only [balance]; omega)

@[simp] theorem not_closes_closing : ¬ Closes 0 (.closing :: symbols) := by
  rintro ⟨bounded, -⟩
  have := bounded [.closing] (by simp)
  simp [balance] at this

@[simp] theorem closes_var {v : Char} :
    Closes opened (.var v :: symbols) ↔ Closes opened symbols :=
  closes_cons (by simp [balance])

@[simp] theorem closes_const {b : Bool} :
    Closes opened (.const b :: symbols) ↔ Closes opened symbols :=
  closes_cons (by simp [balance])

@[simp] theorem closes_op {o : Operator} :
    Closes opened (.op o :: symbols) ↔ Closes opened symbols :=
  closes_cons (by simp [balance])

end Symbol

theorem Phrase.balanced_symbols (p : Phrase) : Symbol.Balanced p.symbols := by
  constructor
  · rintro u ⟨v, h⟩
    simpa using balance_nonneg h.symm
  · simpa using p.balance_symbols

namespace Token

open Sentential.Symbol (Closes)

theorem matchParentheses_eq_ok {opened : List Nat} {tokens : List Token} :
    matchParentheses opened tokens = .ok () ↔ Closes opened.length (tokens.map symbol) := by
  induction tokens generalizing opened with
  | nil =>
    cases opened with
    | nil => simp [matchParentheses]
    | cons p opened => simp [matchParentheses, List.getLast?_cons]
  | cons t tokens ih =>
    cases hs : t.symbol with
    | opening => simp [matchParentheses, hs, ih]
    | closing =>
      cases opened with
      | nil => simp [matchParentheses, hs]
      | cons p opened => simp [matchParentheses, hs, ih]
    | var | const | op => simp [matchParentheses, hs, ih]

theorem checkParentheses_eq_ok {tokens : List Token} :
    checkParentheses tokens = .ok () ↔ Symbol.Balanced (tokens.map symbol) := matchParentheses_eq_ok

end Token

end Sentential
