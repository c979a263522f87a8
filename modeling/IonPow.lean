import IonPow.Arith
import IonPow.Compact
import IonPow.Chain
import IonPow.Classifier
import IonPow.Average
import IonPow.Exponential
import IonPow.Orig
import IonPow.HybridPos
import IonPow.HybridPow
import IonPow.Pivx
import IonPow.Midas
import IonPow.Dispatch
import IonPow.Ceiling
import IonPow.Isolation
import IonPow.Window
import IonPow.Response
import IonPow.Lookback
