import Chronicle.Statement.Basic
import Chronicle.Statement.Fragment

/-!
# Values that texts share

Texts of one statement may name the same parameter.  In the statement it has one value, the one that
was given last.

* `Select.fragments`: the texts of a statement in the order in which they are written;
* `Select.shared`: the statement whose texts have the values that count.
-/

namespace Chronicle

namespace RawFragment

/-- The values that a text gives to the parameters in it. -/
def given (r : RawFragment) : List (String × Value) :=
  r.params.filter fun p => (Fragment.paramNames r.sql).contains p.1

/-- A text whose parameters have other values, where there are some. -/
def withValues (values : List (String × Value)) (r : RawFragment) : RawFragment :=
  { r with params := r.params.map fun p => (p.1, (values.lookup p.1).getD p.2) }

end RawFragment

/-! ## The texts of a statement -/

def OrderExpr.fragments : OrderExpr → List RawFragment
  | column _ => []
  | raw r => [r]

mutual

def Clause.fragments : Clause → List RawFragment
  | .raw r => [r]
  | .parts _ cs => Clause.allFragments cs
  | .group c | .truthOf c _ | .inverse c => c.fragments
  | .amongRows _ q _ | .hasRows q => q.fragments
  | .compare _ _ _ | .isNull _ _ | .amongValues _ _ _ | .validAt _ _ _ _ => []

def Clause.allFragments : List Clause → List RawFragment
  | [] => []
  | c :: cs => c.fragments ++ Clause.allFragments cs

def JoinedSource.allFragments : List JoinedSource → List RawFragment
  | [] => []
  | .mk _ on _ :: js => on.fragments ++ JoinedSource.allFragments js

def Select.fragments : Select → List RawFragment
  | ⟨_, _, joins, conditions, orders, _⟩ =>
    JoinedSource.allFragments joins ++ Clause.allFragments conditions ++
      orders.flatMap fun o => o.1.fragments

end

/-! ## Values -/

def OrderExpr.withValues (values : List (String × Value)) : OrderExpr → OrderExpr
  | column c => column c
  | raw r => raw (r.withValues values)

mutual

def Clause.withValues (values : List (String × Value)) : Clause → Clause
  | .raw r => .raw (r.withValues values)
  | .parts op cs => .parts op (Clause.allWithValues values cs)
  | .group c => .group (c.withValues values)
  | .truthOf c negated => .truthOf (c.withValues values) negated
  | .inverse c => .inverse (c.withValues values)
  | .amongRows c q negated => .amongRows c (q.withValues values) negated
  | .hasRows q => .hasRows (q.withValues values)
  | .compare op c t => .compare op c t
  | .isNull c negated => .isNull c negated
  | .amongValues c vs negated => .amongValues c vs negated
  | .validAt journals data kind i => .validAt journals data kind i

def Clause.allWithValues (values : List (String × Value)) : List Clause → List Clause
  | [] => []
  | c :: cs => c.withValues values :: Clause.allWithValues values cs

def JoinedSource.allWithValues (values : List (String × Value)) :
    List JoinedSource → List JoinedSource
  | [] => []
  | .mk source on outer :: js =>
    .mk source (on.withValues values) outer :: JoinedSource.allWithValues values js

def Select.withValues (values : List (String × Value)) : Select → Select
  | ⟨columns, base, joins, conditions, orders, limit⟩ =>
    ⟨columns, base, JoinedSource.allWithValues values joins,
      Clause.allWithValues values conditions,
      orders.map fun o => (o.1.withValues values, o.2), limit⟩

end

namespace Select

/-- The values that a statement gives to the parameters of its texts, the last one first. -/
def given (s : Select) : List (String × Value) := (s.fragments.flatMap RawFragment.given).reverse

/-- The statement whose texts have the values that count. -/
def shared (s : Select) : Select := s.withValues s.given

end Select

end Chronicle
