import MyBooks.WalkRun
import MyBooks.Rewalk
import MyBooks.FullReturns
import MyBooks.Books
import MyBooks.Reconciliation
import MyBooks.Balances
import MyBooks.StaysCleared
import MyBooks.ReceivablesRun
import MyBooks.SharesInside
import MyBooks.OneRate
import MyBooks.InvoiceGroups
import MyBooks.RecurringBills
import MyBooks.PaymentConserves
import MyBooks.AutoAllocation
import MyBooks.Retyped
import MyBooks.EarlierPayments
import MyBooks.ExactLines
import MyBooks.CashReconciles
import MyBooks.FsReport
import MyBooks.FaceValues
import MyBooks.FaceAnchors
import MyBooks.KeyedOnce
import MyBooks.OccurrencesOnce
import MyBooks.ArchiveCodec
import MyBooks.RowsRestored
import MyBooks.AccrualsBooked
import MyBooks.ChargedOnce
import MyBooks.NumbersOnce
import MyBooks.DepositedOnce
import MyBooks.RangesComposed
import MyBooks.TaxDecimals
import MyBooks.RegularTax
import MyBooks.CapitalGains
import MyBooks.EntityIncome
import MyBooks.OwnerAmounts
import MyBooks.LossLimits
import MyBooks.LookAlikes
import MyBooks.CommittedTwice
import MyBooks.LossesConserved
import MyBooks.NumberText
import MyBooks.CanonicalJson
import MyBooks.RequestHash
import MyBooks.RegexGuard
import MyBooks.FieldRewritten
import MyBooks.BilledLines
import MyBooks.ConditionRules
import MyBooks.ScheduleAi
import MyBooks.RecurrenceText
import MyBooks.ExactSums
import MyBooks.UrlSafety
import MyBooks.ExpressionFormat
import MyBooks.QbiBounds
import MyBooks.CheckWords
import MyBooks.SplitTax
import MyBooks.DumpRestored
import MyBooks.StatementsArticulate
import MyBooks.CustomerStatements
