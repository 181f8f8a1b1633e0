/-!
# Powers of numbers

Bounds are written as powers, such as `2 ^ 64`. Here `^` is settled to mean the power of the core
library wherever a base could also be taken for an element of a monoid, so that a bound reads the
same in a program that knows nothing of monoids and in a proof about it that does.
-/

attribute [instance (high + 1), default_instance (high + 1)] instPowNat
