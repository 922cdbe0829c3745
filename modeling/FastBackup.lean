import FastBackup.Core.Stamp
import FastBackup.GDrive.Atomic
import FastBackup.GDrive.Cost
import FastBackup.GDrive.Forward
import FastBackup.GDrive.Paged
import FastBackup.Pg.Health
import FastBackup.Pg.Service
import FastBackup.Server.Channel
import FastBackup.Server.Config
import FastBackup.Server.Details
import FastBackup.Server.Folder
import FastBackup.Server.Readers
import FastBackup.Server.Restart
